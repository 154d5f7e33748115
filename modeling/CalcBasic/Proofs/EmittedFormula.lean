import CalcBasic.Emit.Program
import CalcBasic.Proofs.FormulaReading
import CalcBasic.Proofs.NumeralText

/-! Code of operations on scalars, read by the calculator. Parentheses that are left
out and multiplication signs that are left out do not change the value. -/
namespace CalcBasic
namespace Formula

/-! ### Texts and their values -/

theorem value_join (meaning : Meaning) (first : Formula) (rest : List (Sign × Formula)) :
    meaning.value (join .binary first rest) =
      join meaning.combine (meaning.value first) (rest.map fun entry => (entry.1,meaning.value entry.2)) :=
  (join_map .binary (fun _ _ _ => rfl) first rest).symm

theorem regroups_of_same_tier {sign inner : Sign} (outer : sign = .plus ∨ sign = .times)
    (same : inner.tier = sign.tier) (meaning : Meaning) : Regroups meaning.combine sign inner := by
  intro x y z
  rcases outer with rfl | rfl
  · cases inner with
    | plus => exact add_assoc x y z
    | minus => exact add_sub_assoc x y z
    | _ => cases same
  · cases inner with
    | times => exact mul_assoc x y z
    | slash => exact mul_div_assoc x y z
    | _ => cases same

/-- The text has the value, and binds at least this tightly. -/
def Denotes (text : String) (strength : Nat) (value : Meaning → ℚ) : Prop :=
  ∃ first rest, Shows text first rest ∧ (∀ sign ∈ rest.map Prod.fst, sign.tier + strength ≤ 5) ∧
    ∀ meaning, meaning.value (join .binary first rest) = value meaning

namespace Denotes

variable {text : String} {strength : Nat} {value : Meaning → ℚ}

theorem read (denotes : Denotes text strength value) :
    ∃ formula, read? text = some formula ∧ ∀ meaning : Meaning, meaning.value formula = value meaning := by
  obtain ⟨first,rest,shown,_,valued⟩ := denotes
  exact ⟨_, shown.read?, valued⟩

theorem weaken {less : Nat} (denotes : Denotes text strength value) (weaker : less ≤ strength) : Denotes text less value := by
  obtain ⟨first,rest,shown,tight,valued⟩ := denotes
  refine ⟨first, rest, shown, fun sign member => ?_, valued⟩
  have := tight sign member
  omega

theorem of_atom {formula : Formula} (shown : Shows text formula []) :
    Denotes text atomStrength fun meaning => meaning.value formula :=
  ⟨formula, [], shown, fun _ member => absurd member List.not_mem_nil, fun _ => rfl⟩

/-- What a sign needs of the operand to its right: a tighter binding, unless the
sign can be regrouped. -/
def Fits (sign : Sign) (strength : Nat) : Prop :=
  5 < sign.tier + strength ∨ 5 = sign.tier + strength ∧ (sign = .plus ∨ sign = .times)

theorem of_chain {sign : Sign} {first next : Formula} {left right : List (Sign × Formula)}
    (shown : Shows text first (left ++ (sign,next) :: right)) (tightLeft : ∀ inner ∈ left.map Prod.fst, inner.tier ≤ sign.tier)
    (tightRight : ∀ inner ∈ right.map Prod.fst, inner.tier + strength ≤ 5) (fits : Fits sign strength) :
    Denotes text (5 - sign.tier) fun meaning => meaning.combine sign (meaning.value (join .binary first left))
      (meaning.value (join .binary next right)) := by
  have bounded : sign.tier ≤ 5 := by cases sign <;> decide
  have below : ∀ inner ∈ right.map Prod.fst, inner.tier ≤ sign.tier := by
    intro inner member
    have := tightRight inner member
    rcases fits with tighter | ⟨equal,_⟩ <;> omega
  refine ⟨first, _, shown, ?_, ?_⟩
  · intro inner member
    rw [List.map_append,List.map_cons,List.mem_append,List.mem_cons] at member
    rcases member with inLeft | rfl | inRight
    · have := tightLeft inner inLeft
      omega
    · omega
    · have := below inner inRight
      omega
  · intro meaning
    have signs (entries : List (Sign × Formula)) :
        (entries.map fun entry => (entry.1,meaning.value entry.2)).map Prod.fst = entries.map Prod.fst := by
      rw [List.map_map]
      rfl
    dsimp only
    rw [value_join,value_join,value_join,List.map_append,List.map_cons]
    dsimp only
    apply join_binary
    · rwa [signs]
    · rwa [signs]
    · rw [signs]
      intro inner member same
      rcases fits with tighter | ⟨_,regrouping⟩
      · have := tightRight inner member
        omega
      · exact regroups_of_same_tier regrouping same meaning

variable (denotes : Denotes text strength value)
include denotes

theorem binary {mark more : String} {sign : Sign} {other : Nat} {next : Meaning → ℚ}
    (marks : Marks mark (.sign sign)) (right : Denotes more other next) (bound : 5 ≤ sign.tier + strength)
    (fits : Fits sign other) :
    Denotes (text ++ mark ++ more) (5 - sign.tier)
      fun meaning => meaning.combine sign (value meaning) (next meaning) := by
  obtain ⟨first,left,shown,tight,valued⟩ := denotes
  obtain ⟨following,others,shownRight,tightRight,valuedRight⟩ := right
  have joined := of_chain (shown.sign marks shownRight)
    (fun inner member => by have := tight inner member; omega) tightRight fits
  simpa only [valued,valuedRight] using joined

theorem beside_letter {name : Char} (bound : 4 ≤ strength) (member : name ∈ alphabet) :
    Denotes (text ++ name.toString) 4 fun meaning => value meaning * meaning.memory (.letter name) := by
  obtain ⟨first,left,shown,tight,valued⟩ := denotes
  have fits : Fits .times atomStrength := .inl (by decide)
  have joined := of_chain (shown.letter member)
    (fun inner inside => by have := tight inner inside; exact show inner.tier ≤ 1 by omega)
    (fun _ inside => absurd inside List.not_mem_nil) fits
  simp only [valued] at joined
  exact joined

theorem letter_beside {name : Char} (bound : 4 ≤ strength) (member : name ∈ alphabet) :
    Denotes (name.toString ++ text) 4 fun meaning => meaning.memory (.letter name) * value meaning := by
  obtain ⟨next,right,shown,tight,valued⟩ := denotes.weaken bound
  have chained : Shows (name.toString ++ text) (.letter name) ([] ++ (.times,next) :: right) :=
    Shows.afterLetter member shown
  have joined := of_chain chained (fun _ inside => absurd inside List.not_mem_nil) tight
    (.inr ⟨rfl, .inr rfl⟩)
  simp only [valued] at joined
  exact joined

theorem group : Denotes ("(" ++ text ++ ")") atomStrength value := by
  obtain ⟨first,rest,shown,_,valued⟩ := denotes
  have marks : Marks "(" (.opening .group) := fun _ => rfl
  simpa only [valued] using of_atom (shown.bracket marks rfl)

theorem wholePart :
    Denotes ("iPart(" ++ text ++ ")") atomStrength fun meaning => meaning.wholePart (value meaning) := by
  obtain ⟨first,rest,shown,_,valued⟩ := denotes
  have marks : Marks "iPart(" (.opening .wholePart) := fun _ => rfl
  simpa only [Meaning.value,valued] using of_atom (shown.bracket marks rfl)

theorem fractionPart :
    Denotes ("fPart(" ++ text ++ ")") atomStrength fun meaning => meaning.fractionPart (value meaning) := by
  obtain ⟨first,rest,shown,_,valued⟩ := denotes
  have marks : Marks "fPart(" (.opening .fractionPart) := fun _ => rfl
  simpa only [Meaning.value,valued] using of_atom (shown.bracket marks rfl)

theorem remainder {more : String} {other : Nat} {next : Meaning → ℚ} (right : Denotes more other next) :
    Denotes ("remainder(" ++ text ++ "," ++ more ++ ")") atomStrength
      fun meaning => meaning.remainder (value meaning) (next meaning) := by
  obtain ⟨first,rest,shown,_,valued⟩ := denotes
  obtain ⟨following,others,shownRight,_,valuedRight⟩ := right
  simpa only [Meaning.value,valued,valuedRight] using of_atom (shown.remainder shownRight)

end Denotes
end Formula

/-! ### Code of scalar operations -/

def Slot.code : Slot → String
  | .letter name => name.toString
  | .overflow index => "∟ARR0(" ++ toString index ++ ")"

def Arith.asSign : Arith → Sign
  | .add => .plus
  | .sub => .minus
  | .mul => .times
  | .div | .mod => .slash
  | .pow => .power

def Comparison.asSign : Comparison → Sign
  | .eq => .equal
  | .ne => .unequal
  | .lt => .less
  | .gt => .greater
  | .le => .atMost
  | .ge => .atLeast
  | .and => .and
  | .or => .or

def Operator.asSign : Operator → Sign
  | .arith op => op.asSign
  | .compare op => op.asSign

namespace Tree

/-- Operations on number literals and scalar variables. -/
def isScalar (symbols : Symbols) : Tree → Bool
  | .number value => value.isFinite && decide (0 ≤ value)
  | .var name => symbols.type name == .number || symbols.type name == .boolean
  | .arith left _ right | .compare left _ right => left.isScalar symbols && right.isScalar symbols
  | _ => false

/-- What the operations of a tree mean. Without a function for remainders they
are taken apart. -/
def value (meaning : Meaning) (modern : Bool) (home : String → Slot) : Tree → ℚ
  | .number value => meaning.numeral (Number.code value)
  | .var name => meaning.memory (home name)
  | .arith left op right =>
    let a := left.value meaning modern home
    let b := right.value meaning modern home
    match op with
    | .add => a + b
    | .sub => a - b
    | .mul => a * b
    | .div => a / b
    | .pow => meaning.free .power a b
    | .mod =>
      if modern then meaning.remainder a b
      else b * meaning.free .less a (meaning.numeral "0") +
        meaning.wholePart (b * meaning.fractionPart (a / b))
  | .compare left op right =>
    meaning.free op.asSign (left.value meaning modern home) (right.value meaning modern home)
  | _ => 0

def operandCode (modern : Bool) (outer : Operator) (right : Bool) (tree : Tree) (code : String) : String :=
  if tree.isWrapped modern outer right then "(" ++ code ++ ")" else code

/-- The code of a tree once every variable has its home. -/
def settledCode (modern : Bool) (home : String → Slot) : Tree → String
  | .number value => Number.code value
  | .var name => (home name).code
  | .arith left op right =>
    if op = .mod && modern then
      "remainder(" ++ left.settledCode modern home ++ "," ++ right.settledCode modern home ++ ")"
    else
      let outer := .arith (if op = .mod then .div else op)
      let a := left.operandCode modern outer false (left.settledCode modern home)
      let b := right.operandCode modern outer true (right.settledCode modern home)
      match op with
      | .mod => Emit.remainder a b
      | .mul => Emit.product left right a b
      | _ => a ++ op.symbol ++ b
  | .compare left op right =>
    left.operandCode modern (.compare op) false (left.settledCode modern home) ++ op.sign ++
      right.operandCode modern (.compare op) true (right.settledCode modern home)
  | _ => ""

end Tree

namespace Formula

variable {modern : Bool} {outer : Operator} {value next : Meaning → ℚ} {strength other : Nat} {tree : Tree} {symbols : Symbols}
  {home : String → Slot}

theorem denotes_numeral {written : String} (nonempty : written ≠ "")
    (numeric : ∀ c ∈ written.toList, c.isDigit = true ∨ c = '.') :
    Denotes written atomStrength fun meaning => meaning.numeral written := by
  refine Denotes.of_atom (shows_numeral nonempty fun c member => ?_)
  rw [isNumeric,Bool.or_eq_true,beq_iff_eq]
  exact numeric c member

theorem shows_cell (index : Nat) : Shows ("∟ARR0(" ++ toString index ++ ")") (.cell index) [] := by
  have digits : (toString index).toList = Nat.toDigits 10 index := by
    rw [Nat.toString_eq_ofList_toDigits,String.toList_ofList]
  have decimal : ∀ c ∈ (toString index).toList, c.isDigit = true := fun c => Code.isDigit_of_mem_natural
  have nonempty : toString index ≠ "" := by
    intro empty
    rw [empty] at digits
    exact Nat.toDigits_ne_nil digits.symm
  have marks : Marks "∟ARR0(" (.opening .cell) := fun _ => rfl
  apply (shows_numeral nonempty fun c member => ?_).bracket marks
  · change (if (toString index).toList.all Char.isDigit then
      some (Formula.cell (Nat.ofDigitChars 10 (toString index).toList 0)) else none) = _
    rw [if_pos (List.all_eq_true.mpr decimal),digits,Nat.ofDigitChars_ten_toDigits]
  · rw [isNumeric,decimal c member,Bool.true_or]

theorem denotes_slot {slot : Slot} (known : ∀ name, slot = .letter name → name ∈ alphabet) :
    Denotes slot.code atomStrength fun meaning => meaning.memory slot := by
  cases slot with
  | letter name => exact Denotes.of_atom (shows_letter (known name rfl))
  | overflow index => exact Denotes.of_atom (shows_cell index)

/-! ### Operands -/

/-- What an operand needs to stand beside an operator as it is. -/
def Standing (outer : Operator) (right : Bool) (strength : Nat) : Prop :=
  outer.strength ≤ strength ∧ (right = true → outer.strength < strength ∨
    outer.strength = strength ∧ (outer = .arith .add ∨ outer = .arith .mul))

theorem standing_atom (outer : Operator) (right : Bool) : Standing outer right atomStrength := by
  have below : outer.strength < atomStrength := by
    cases outer with
    | arith op => cases op <;> decide
    | compare op => cases op <;> decide
  exact ⟨Nat.le_of_lt below, fun _ => .inl below⟩

theorem standing_of_unwrapped {right : Bool} (scalar : tree.isScalar symbols = true)
    (bare : tree.isWrapped modern outer right = false) :
    Standing outer right (tree.strength modern) := by
  cases tree with
  | number value => exact standing_atom outer right
  | var name => exact standing_atom outer right
  | arith a op b =>
    simp only [Tree.isWrapped,Bool.or_eq_false_iff,decide_eq_false_iff_not,Bool.and_eq_false_iff] at bare
    obtain ⟨notLess,same⟩ := bare
    refine ⟨by omega, fun isRight => ?_⟩
    rcases same with (different | notRight) | regroups
    · exact .inl (by omega)
    · rw [isRight] at notRight
      cases notRight
    · simp only [Bool.and_eq_true,decide_eq_true_eq,Bool.not_eq_eq_eq_not,Bool.not_false] at regroups
      obtain ⟨rfl,associative⟩ := regroups
      cases op with
      | add => exact .inr ⟨rfl, .inl rfl⟩
      | mul => exact .inr ⟨rfl, .inr rfl⟩
      | _ => cases associative
  | compare a op b =>
    simp only [Tree.isWrapped,Bool.or_eq_false_iff,decide_eq_false_iff_not,Bool.and_eq_false_iff,
      Bool.not_false,Bool.true_eq_false,or_false] at bare
    obtain ⟨notLess,same⟩ := bare
    refine ⟨by omega, fun isRight => .inl ?_⟩
    rcases same with different | notRight
    · omega
    · rw [isRight] at notRight
      cases notRight
  | _ => cases scalar

theorem denotes_operand {code : String} (scalar : tree.isScalar symbols = true)
    (denotes : Denotes code (tree.strength modern) value) (outer : Operator) (right : Bool) :
    ∃ strength, Denotes (tree.operandCode modern outer right code) strength value ∧
      Standing outer right strength := by
  unfold Tree.operandCode
  split
  · exact ⟨_, denotes.group, standing_atom outer right⟩
  · rename_i bare
    exact ⟨_, denotes, standing_of_unwrapped scalar (Bool.eq_false_iff.mpr bare)⟩

theorem tier_asSign (outer : Operator) : outer.asSign.tier + outer.strength = 5 := by
  cases outer with
  | arith op => cases op <;> rfl
  | compare op => cases op <;> rfl

theorem fits_of_standing (standing : Standing outer true strength) : Denotes.Fits outer.asSign strength := by
  have tier := tier_asSign outer
  rcases standing.2 rfl with tighter | ⟨equal,regrouping⟩
  · exact .inl (by omega)
  · refine .inr ⟨by omega, ?_⟩
    rcases regrouping with rfl | rfl
    · exact .inl rfl
    · exact .inr rfl

theorem denotes_signed {text mark more : String} (marks : Marks mark (.sign outer.asSign)) (left : Denotes text strength value)
    (standingLeft : Standing outer false strength) (right : Denotes more other next)
    (standingRight : Standing outer true other) :
    Denotes (text ++ mark ++ more) outer.strength
      fun meaning => meaning.combine outer.asSign (value meaning) (next meaning) := by
  have tier := tier_asSign outer
  have bound := standingLeft.1
  have joined := left.binary marks right (by omega) (fits_of_standing standingRight)
  rwa [show 5 - outer.asSign.tier = outer.strength by omega] at joined

/-! ### Products and remainders -/

theorem letter_of_isLetter {right : Bool}
    (single : Emit.isLetter tree (tree.operandCode modern outer right (tree.settledCode modern home)) = true) :
    ∃ name letter, tree = .var name ∧ home name = .letter letter ∧
      tree.operandCode modern outer right (tree.settledCode modern home) = letter.toString := by
  rw [Emit.isLetter,Bool.and_eq_true,decide_eq_true_eq,decide_eq_true_eq] at single
  obtain ⟨kind,short⟩ := single
  cases tree with
  | var name =>
    cases housed : home name with
    | letter letter => exact ⟨name, letter, rfl, housed, congrArg Slot.code housed⟩
    | overflow index =>
      have long : (Tree.operandCode modern outer right (.var name) ((Tree.var name).settledCode modern home)) =
          "∟ARR0(" ++ toString index ++ ")" := congrArg Slot.code housed
      rw [long,String.length_append,String.length_append] at short
      have lead : "∟ARR0(".length = 6 := rfl
      omega
  | _ => cases kind

theorem denotes_product {left right : Tree} (known : ∀ name letter, home name = .letter letter → letter ∈ alphabet)
    (denotes : Denotes (left.operandCode modern (.arith .mul) false (left.settledCode modern home)) strength value)
    (standing : Standing (.arith .mul) false strength)
    (denotesRight : Denotes (right.operandCode modern (.arith .mul) true (right.settledCode modern home)) other next)
    (standingRight : Standing (.arith .mul) true other)
    (leftValue : ∀ name, left = .var name → value = fun meaning => meaning.memory (home name))
    (rightValue : ∀ name, right = .var name → next = fun meaning => meaning.memory (home name)) :
    Denotes (Emit.product left right
      (left.operandCode modern (.arith .mul) false (left.settledCode modern home))
      (right.operandCode modern (.arith .mul) true (right.settledCode modern home))) Arith.mul.strength
      fun meaning => value meaning * next meaning := by
  unfold Emit.product
  split
  · rename_i single
    rcases (Bool.or_eq_true _ _).mp single with leftLetter | rightLetter
    · obtain ⟨name,letter,isVar,housed,written⟩ := letter_of_isLetter leftLetter
      have valued := leftValue name isVar
      rw [housed] at valued
      rw [written,valued]
      split
      · have swapped : (fun meaning : Meaning => meaning.memory (.letter letter) * next meaning) =
            fun meaning => next meaning * meaning.memory (.letter letter) := funext fun _ => mul_comm _ _
        rw [swapped]
        exact denotesRight.beside_letter standingRight.1 (known name letter housed)
      · exact denotesRight.letter_beside standingRight.1 (known name letter housed)
    · obtain ⟨name,letter,isVar,housed,written⟩ := letter_of_isLetter rightLetter
      have valued := rightValue name isVar
      rw [housed] at valued
      have notLiteral : ¬right.isLiteral = true := by
        rw [isVar]
        nofun
      rw [written,valued,if_neg notLiteral]
      exact denotes.beside_letter standing.1 (known name letter housed)
  · have marks : Marks "*" (.sign (Operator.arith .mul).asSign) := fun _ => rfl
    exact denotes_signed marks denotes standing denotesRight standingRight

theorem denotes_remainder {text more : String} (denotes : Denotes text strength value)
    (standing : Standing (.arith .div) false strength) (right : Denotes more other next)
    (standingRight : Standing (.arith .div) true other) :
    Denotes (Emit.remainder text more) Arith.add.strength fun meaning =>
      next meaning * meaning.free .less (value meaning) (meaning.numeral "0") +
        meaning.wholePart (next meaning * meaning.fractionPart (value meaning / next meaning)) := by
  have grouped : Emit.remainder text more =
      (more ++ "*" ++ ("(" ++ (text ++ "<" ++ "0") ++ ")")) ++ "+" ++
        ("iPart(" ++ (more ++ "*" ++ ("fPart(" ++ (text ++ "/" ++ more) ++ ")")) ++ ")") := by
    apply String.toList_injective
    simp [Emit.remainder,String.toList_append]
  have times : Marks "*" (.sign .times) := fun _ => rfl
  have divides : Marks "/" (.sign .slash) := fun _ => rfl
  have plus : Marks "+" (.sign .plus) := fun _ => rfl
  have less : Marks "<" (.sign .less) := fun _ => rfl
  have tight : 4 < other := by
    rcases standingRight.2 rfl with tighter | ⟨_,wrong | wrong⟩
    · exact tighter
    · cases wrong
    · cases wrong
  have loose : 4 ≤ strength := standing.1
  have zero : Denotes "0" atomStrength fun meaning => meaning.numeral "0" :=
    denotes_numeral (by decide) (by simp)
  have atom (sign : Sign) : Denotes.Fits sign atomStrength := .inl (by cases sign <;> decide)
  have negative := (denotes.binary less zero (by show 5 ≤ 3 + strength; omega) (atom .less)).group
  have quotient := (denotes.binary divides right (by show 5 ≤ 1 + strength; omega)
    (.inl (by show 5 < 1 + other; omega))).fractionPart
  have whole := (right.binary times quotient (by show 5 ≤ 1 + other; omega) (atom .times)).wholePart
  have offset := right.binary times negative (by show 5 ≤ 1 + other; omega) (atom .times)
  rw [grouped]
  exact offset.binary plus whole (by decide) (atom .plus)

section Operations

variable {symbols : Symbols} {modern : Bool} {home : String → Slot} {left right : Tree}
  (denotes : Denotes (left.settledCode modern home) (left.strength modern)
    fun meaning => left.value meaning modern home)
  (denotesRight : Denotes (right.settledCode modern home) (right.strength modern)
    fun meaning => right.value meaning modern home)
  (scalar : left.isScalar symbols = true) (scalarRight : right.isScalar symbols = true)
include denotes denotesRight scalar scalarRight

theorem denotes_operation (outer : Operator) {mark : String} (marks : Marks mark (.sign outer.asSign)) :
    Denotes (left.operandCode modern outer false (left.settledCode modern home) ++ mark ++
        right.operandCode modern outer true (right.settledCode modern home)) outer.strength
      fun meaning => meaning.combine outer.asSign (left.value meaning modern home)
        (right.value meaning modern home) := by
  obtain ⟨_,operand,standing⟩ := denotes_operand scalar denotes outer false
  obtain ⟨_,operandRight,standingRight⟩ := denotes_operand scalarRight denotesRight outer true
  exact denotes_signed marks operand standing operandRight standingRight

theorem denotes_arith (known : ∀ name letter, home name = .letter letter → letter ∈ alphabet) (op : Arith) :
    Denotes ((Tree.arith left op right).settledCode modern home) ((Tree.arith left op right).strength modern)
      fun meaning => (Tree.arith left op right).value meaning modern home := by
  have signed (outer : Arith) (marks : Marks outer.symbol (.sign outer.asSign)) :=
    denotes_operation denotes denotesRight scalar scalarRight (.arith outer) marks
  cases op with
  | add => exact signed .add fun _ => rfl
  | sub => exact signed .sub fun _ => rfl
  | div => exact signed .div fun _ => rfl
  | pow => exact signed .pow fun _ => rfl
  | mul =>
    -- a letter is written beside the other operand, so what the letter holds must be known
    obtain ⟨_,operand,standing⟩ := denotes_operand scalar denotes (.arith .mul) false
    obtain ⟨_,operandRight,standingRight⟩ := denotes_operand scalarRight denotesRight (.arith .mul) true
    refine denotes_product known operand standing operandRight standingRight ?_ ?_
    · rintro name rfl
      rfl
    · rintro name rfl
      rfl
  | mod =>
    cases modern with
    | true => exact denotes.remainder denotesRight
    | false =>
      -- the operands are put in parentheses as those of a quotient are
      obtain ⟨_,operand,standing⟩ := denotes_operand scalar denotes (.arith .div) false
      obtain ⟨_,operandRight,standingRight⟩ := denotes_operand scalarRight denotesRight (.arith .div) true
      exact denotes_remainder operand standing operandRight standingRight

theorem denotes_compare (op : Comparison) :
    Denotes ((Tree.compare left op right).settledCode modern home) ((Tree.compare left op right).strength modern)
      fun meaning => (Tree.compare left op right).value meaning modern home := by
  have marks : Marks op.sign (.sign (Operator.compare op).asSign) := by
    cases op <;> exact fun _ => rfl
  have free (meaning : Meaning) : meaning.combine op.asSign = meaning.free op.asSign := by
    cases op <;> rfl
  have joined := denotes_operation denotes denotesRight scalar scalarRight (.compare op) marks
  simp only [Operator.asSign,free] at joined
  exact joined

end Operations

theorem denotes_code (known : ∀ name letter, home name = .letter letter → letter ∈ alphabet) (tree : Tree)
    (scalar : tree.isScalar symbols = true) :
    Denotes (tree.settledCode modern home) (tree.strength modern)
      fun meaning => tree.value meaning modern home := by
  induction tree using Tree.isScalar.induct with
  | case1 value =>
    rw [Tree.isScalar,Bool.and_eq_true,decide_eq_true_eq] at scalar
    obtain ⟨nonempty,numeric⟩ := Number.code_numeric scalar.1 scalar.2
    exact denotes_numeral nonempty numeric
  | case2 name => exact denotes_slot (known name)
  | case3 left op right ihLeft ihRight =>
    rw [Tree.isScalar,Bool.and_eq_true] at scalar
    exact denotes_arith (ihLeft scalar.1) (ihRight scalar.2) scalar.1 scalar.2 known op
  | case4 left op right ihLeft ihRight =>
    rw [Tree.isScalar,Bool.and_eq_true] at scalar
    exact denotes_compare (ihLeft scalar.1) (ihRight scalar.2) scalar.1 scalar.2 op
  | case5 tree notNumber notVar notArith notCompare =>
    rw [Tree.isScalar] at scalar
    · cases scalar
    · exact notNumber
    · exact notVar
    · exact notArith
    · exact notCompare

end Formula
end CalcBasic
