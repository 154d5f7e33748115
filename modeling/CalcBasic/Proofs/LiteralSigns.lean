import CalcBasic.Proofs.ConstantCode
import CalcBasic.Proofs.Lasting

/-! The signs of negative literals in the code of operations. Whether an operand stands in
parentheses is decided from its own root. So a sign at the start of an operand that needs
none, on the right of an operator, follows what is before it: this is the only way in which
the sign of a literal gets elsewhere than to the start of the code or of a bracket. -/
namespace CalcBasic

/-- A character of code, and whether it is the sign of a literal. -/
structure Stroke where
  char : Char
  sign : Bool
  deriving DecidableEq

namespace Stroke

variable {strokes : List Stroke} {keeps other : Bool} {code : String}

def plain (text : String) : List Stroke := text.toList.map (⟨·, false⟩)

def number (value : Float) : List Stroke := (Number.code value).toList.map fun c => ⟨c, c == '-'⟩

def wrapped (wraps : Bool) (strokes : List Stroke) : List Stroke :=
  if wraps then plain "(" ++ strokes ++ plain ")" else strokes

def remainder (a b : List Stroke) : List Stroke :=
  b ++ plain "*(" ++ a ++ plain "<0)+iPart(" ++ b ++ plain "*fPart(" ++ a ++ plain "/" ++ b ++ plain "))"

/-- The characters alone. -/
def text (strokes : List Stroke) : String := String.ofList (strokes.map char)

@[simp]
theorem text_append (a b : List Stroke) : text (a ++ b) = text a ++ text b := by
  simp [text]

@[simp]
theorem text_plain (code : String) : text (plain code) = code := by
  simp [text,plain,Function.comp_def]

@[simp]
theorem text_number (value : Float) : text (number value) = Number.code value := by
  simp [text,number,Function.comp_def]

theorem text_wrapped (wraps : Bool) (strokes : List Stroke) :
    text (wrapped wraps strokes) = if wraps then "(" ++ text strokes ++ ")" else text strokes := by
  cases wraps with
  | true => simp only [wrapped,if_true,text_append,text_plain]
  | false => rfl

theorem text_remainder (a b : List Stroke) : text (remainder a b) = Emit.remainder (text a) (text b) := by
  simp only [remainder,Emit.remainder,text_append,text_plain]

/-! ### Neighbours -/

/-- The character before what follows the strokes. -/
def lastChar (before : Option Char) (strokes : List Stroke) : Option Char :=
  (strokes.getLast?.map char).or before

/-- Every stroke is allowed after the character before it. -/
def walk (allows : Option Char → Stroke → Bool) (before : Option Char) : List Stroke → Bool
  | [] => true
  | stroke :: rest => allows before stroke && walk allows (some stroke.char) rest

variable {allows : Option Char → Stroke → Bool}

theorem lastChar_append (before : Option Char) (a b : List Stroke) :
    lastChar before (a ++ b) = lastChar (lastChar before a) b := by
  rw [lastChar,lastChar,lastChar,List.getLast?_append]
  cases b.getLast? <;> rfl

theorem walk_append (before : Option Char) (a b : List Stroke) :
    walk allows before (a ++ b) = (walk allows before a && walk allows (lastChar before a) b) := by
  induction a generalizing before with
  | nil => rfl
  | cons stroke rest ih =>
    have last : lastChar before (stroke :: rest) = lastChar (some stroke.char) rest := by
      rw [lastChar,lastChar,List.getLast?_cons]
      cases rest.getLast? <;> rfl
    rw [List.cons_append,walk,walk,ih,last,Bool.and_assoc]

theorem walk_iff {before : Option Char} : walk allows before strokes = true ↔
    ∀ front stroke rest, strokes = front ++ stroke :: rest → allows (lastChar before front) stroke = true := by
  constructor
  · rintro walked front stroke rest rfl
    rw [walk_append,Bool.and_eq_true,walk,Bool.and_eq_true] at walked
    exact walked.2.1
  · intro each
    induction strokes generalizing before with
    | nil => rfl
    | cons stroke rest ih =>
      rw [walk,Bool.and_eq_true]
      refine ⟨each [] stroke rest rfl, ih fun front next more same => ?_⟩
      have there := each (stroke :: front) next more (by rw [same]; rfl)
      rw [← List.singleton_append,lastChar_append] at there
      exact there

/-- A literal may start here. -/
def opens (c : Char) : Bool := c == '(' || c == '\x7b' || c == ','

def isOperator (c : Char) : Bool :=
  ['+', '-', '*', '/', '^', '=', '≠', '<', '>', '≤', '≥'].contains c

/-- The sign of a literal comes at the start or after an opening. -/
def signAllowed (before : Option Char) (stroke : Stroke) : Bool := !stroke.sign || before.all opens

/-- An operator comes after another only if it is the sign of a literal. -/
def operatorAllowed (before : Option Char) (stroke : Stroke) : Bool :=
  stroke.sign || !(before.any isOperator && isOperator stroke.char)

/-- What the strokes of an expression are like. -/
structure Fits (strokes : List Stroke) (leads keeps : Bool) : Prop where
  signs (before : Option Char) : walk signAllowed before strokes = (keeps && (before.all opens || !leads))
  operators (before : Option Char) : walk operatorAllowed before strokes = true
  last (before : Option Char) : ∃ c, lastChar before strokes = some c ∧ opens c = false ∧ isOperator c = false

/-- Strokes that may come after an expression. -/
structure Follows (strokes : List Stroke) (opening : Bool) : Prop where
  signs (before : Option Char) : walk signAllowed before strokes = true
  operators {c : Char} (operand : isOperator c = false) : walk operatorAllowed (some c) strokes = true
  last {c : Char} (closed : opens c = false) : (lastChar (some c) strokes).all opens = opening

theorem follows_nothing : Follows [] false :=
  ⟨fun _ => rfl, fun _ => rfl, id⟩

theorem Fits.join {a b between : List Stroke} {leads kept opening : Bool} (first : Fits a leads keeps)
    (joined : Follows between opening) (second : Fits b other kept) :
    Fits (a ++ between ++ b) leads (keeps && kept && (opening || !other)) := by
  refine ⟨fun before => ?_, fun before => ?_, fun before => ?_⟩
  · obtain ⟨c,ends,closed,_⟩ := first.last before
    rw [walk_append,walk_append,first.signs,joined.signs,second.signs,lastChar_append,ends,joined.last closed]
    cases leads <;> cases keeps <;> cases kept <;> cases opening <;> cases other <;> cases before.all opens <;> rfl
  · obtain ⟨c,ends,_,operand⟩ := first.last before
    rw [walk_append,walk_append,first.operators,ends,joined.operators operand,second.operators]
    rfl
  · rw [lastChar_append]
    exact second.last _

theorem Fits.congr {leads : Bool} (fits : Fits strokes leads keeps)
    (same : keeps = other) : Fits strokes leads other := same ▸ fits

theorem Fits.adjoin {a b : List Stroke} {leads kept : Bool} (first : Fits a leads keeps) (second : Fits b other kept) :
    Fits (a ++ b) leads (keeps && kept && !other) := by
  have joined := first.join follows_nothing second
  rwa [List.append_nil,Bool.false_or] at joined

/-! ### Plain strokes -/

theorem walk_signs_plain (before : Option Char) (code : String) : walk signAllowed before (plain code) = true := by
  unfold plain
  induction code.toList generalizing before with
  | nil => rfl
  | cons c rest ih => exact (Bool.and_eq_true _ _).mpr ⟨rfl, ih _⟩

theorem walk_operators_plain (word : ∀ c ∈ code.toList, isOperator c = false) (before : Option Char) :
    walk operatorAllowed before (plain code) = true := by
  unfold plain
  generalize code.toList = chars at word ⊢
  induction chars generalizing before with
  | nil => rfl
  | cons c rest ih =>
    rw [List.forall_mem_cons] at word
    refine (Bool.and_eq_true _ _).mpr ⟨?_, ih _ word.2⟩
    simp [operatorAllowed,word.1]

theorem lastChar_of_some {c : Char} (ends : lastChar none strokes = some c) (before : Option Char) :
    lastChar before strokes = some c := by
  rw [lastChar,Option.or_none] at ends
  rw [lastChar,ends]
  rfl

theorem walk_operators_some {c : Char} (operand : isOperator c = false) (strokes : List Stroke) :
    walk operatorAllowed (some c) strokes = walk operatorAllowed none strokes := by
  cases strokes with
  | nil => rfl
  | cons stroke rest => simp [walk,operatorAllowed,operand]

theorem follows_plain {opening : Bool} (clear : walk operatorAllowed none (plain code) = true)
    (ends : (lastChar none (plain code)).map opens = some opening) : Follows (plain code) opening := by
  obtain ⟨last,found,isLast⟩ := Option.map_eq_some_iff.mp ends
  refine ⟨fun before => walk_signs_plain before code, fun operand => ?_, fun _ => ?_⟩
  · rw [walk_operators_some operand,clear]
  · rw [lastChar_of_some found]
    exact isLast

/-- A word that ends an expression, or is one. -/
structure Closes (code : String) : Prop where
  word : ∀ c ∈ code.toList, isOperator c = false
  ends : (lastChar none (plain code)).map opens = some false

theorem Closes.last {code : String} (closes : Closes code) (before : Option Char) :
    ∃ c, lastChar before (plain code) = some c ∧ opens c = false ∧ isOperator c = false := by
  obtain ⟨last,found,closed⟩ := Option.map_eq_some_iff.mp closes.ends
  refine ⟨last, lastChar_of_some found before, closed, closes.word last ?_⟩
  rw [lastChar,Option.or_none,plain,List.getLast?_map,Option.map_map,Option.map_eq_some_iff] at found
  obtain ⟨c,member,rfl⟩ := found
  exact List.mem_of_getLast? member

theorem Closes.fits (closes : Closes code) : Fits (plain code) false true :=
  ⟨fun before => (walk_signs_plain before code).trans (by simp), walk_operators_plain closes.word, closes.last⟩

theorem Fits.trail {leads : Bool} (fits : Fits strokes leads keeps)
    (closes : Closes code) : Fits (strokes ++ plain code) leads keeps := by
  refine ⟨fun before => ?_, fun before => ?_, fun before => ?_⟩
  · rw [walk_append,walk_signs_plain,Bool.and_true,fits.signs]
  · rw [walk_append,walk_operators_plain closes.word,fits.operators]
    rfl
  · rw [lastChar_append]
    exact closes.last _

theorem Fits.lead {leads : Bool} (fits : Fits strokes leads keeps) (word : ∀ c ∈ code.toList, isOperator c = false)
    (ends : (lastChar none (plain code)).map opens = some true) :
    Fits (plain code ++ strokes) false keeps := by
  obtain ⟨last,found,opening⟩ := Option.map_eq_some_iff.mp ends
  refine ⟨fun before => ?_, fun before => ?_, fun before => ?_⟩
  · rw [walk_append,walk_signs_plain,fits.signs,lastChar_of_some found]
    simp [opening]
  · rw [walk_append,walk_operators_plain word,fits.operators]
    rfl
  · rw [lastChar_append]
    exact fits.last _

theorem Closes.behind (closes : Closes code) {front : String} (word : ∀ c ∈ front.toList, isOperator c = false) :
    Closes (front ++ code) := by
  obtain ⟨last,found,closed⟩ := Option.map_eq_some_iff.mp closes.ends
  have parts : plain (front ++ code) = plain front ++ plain code := by simp [plain]
  refine ⟨?_, ?_⟩
  · rw [String.toList_append]
    exact List.forall_mem_append.mpr ⟨word, closes.word⟩
  · rw [parts,lastChar_append,lastChar_of_some found,Option.map_some,closed]

theorem closes_paren : Closes ")" := ⟨by decide +kernel, by decide +kernel⟩

theorem Fits.wrapped {leads : Bool} (fits : Fits strokes leads keeps) (wraps : Bool) :
    Fits (Stroke.wrapped wraps strokes) (!wraps && leads) keeps := by
  cases wraps with
  | true => exact (fits.lead (by decide +kernel) (by decide +kernel)).trail closes_paren
  | false => exact fits

theorem closes_magnitude {magnitude : String} (nonempty : magnitude ≠ "")
    (chars : ∀ c ∈ magnitude.toList, c.isDigit = true ∨ c ∈ ['.', 'i', 'n', 'f', 'N', 'a']) : Closes magnitude := by
  have apart : ∀ c ∈ ['+', '-', '*', '/', '^', '=', '≠', '<', '>', '≤', '≥', '(', '\x7b', ','],
      ¬(c.isDigit = true ∨ c ∈ ['.', 'i', 'n', 'f', 'N', 'a']) := by decide
  obtain ⟨lead,last,whole⟩ := (List.eq_nil_or_concat' magnitude.toList).resolve_left (by simpa using nonempty)
  have ends : lastChar none (plain magnitude) = some last := by simp [lastChar,plain,whole]
  have closed : opens last = false := Bool.eq_false_iff.mpr fun opening => by
    refine apart last ?_ (chars last (by simp [whole]))
    simp only [opens,Bool.or_eq_true,beq_iff_eq] at opening
    rcases opening with (rfl | rfl) | rfl <;> simp
  refine ⟨fun c member => Bool.eq_false_iff.mpr fun operator => apart c ?_ (chars c member), ?_⟩
  · simp only [isOperator,List.contains_iff_mem] at operator
    exact List.mem_append_left ['(', '\x7b', ','] operator
  · rw [ends,Option.map_some,closed]

theorem fits_number (value : Float) : Fits (number value) (decide (value < 0)) true := by
  obtain ⟨magnitude,nonempty,chars,code⟩ := Number.code_shape value
  have fits := (closes_magnitude nonempty chars).fits
  have unsigned : magnitude.toList.map (fun c => (⟨c, c == '-'⟩ : Stroke)) = plain magnitude := by
    refine List.map_congr_left fun c member => ?_
    have other : c ≠ '-' := by
      rintro rfl
      exact absurd (chars '-' member) (by decide)
    rw [beq_eq_false_iff_ne.mpr other]
  rw [← Number.isSigned_eq,number,code,String.toList_append,List.map_append,unsigned]
  cases Number.isSigned value with
  | false => exact fits
  | true =>
    have sign : (if true = true then "-" else "").toList.map (fun c => (⟨c, c == '-'⟩ : Stroke)) = [⟨'-', true⟩] := by simp
    rw [sign,List.singleton_append]
    refine ⟨fun before => ?_, fun before => fits.operators (some '-'), fun before => ?_⟩
    · rw [walk,fits.signs]
      simp [signAllowed]
    · obtain ⟨c,ends,rest⟩ := fits.last (some '-')
      refine ⟨c, ?_, rest⟩
      rw [← List.singleton_append,lastChar_append]
      exact ends

end Stroke

/-! ### Strokes of operations -/

namespace Constant
open Stroke

def strokes : Constant → List Stroke
  | .number value => Stroke.number value
  | .boolean value => plain (if value then "1" else "0")
  | .text _ | .list _ => []

def isNegative : Constant → Bool
  | .number value => value < 0
  | _ => false

theorem fits_strokes {value : Constant} {code : String} (literal : value.code? = some code) :
    Fits value.strokes value.isNegative true := by
  cases value with
  | number value => exact fits_number value
  | boolean value => cases value <;> exact (Closes.mk (by decide +kernel) (by decide +kernel)).fits
  | text | list => cases literal

end Constant

namespace Tree
open Stroke

variable {own a b : List Stroke}

section Operands

variable (modern folding : Bool) (tree : Tree)

/-- The value that takes the place of the tree, if there is one. -/
def replaced? : Option Constant := if folding then tree.folded? modern else none

/-- The tree, or the literal in its place. -/
def shown : Tree := ((tree.replaced? modern folding).map Constant.tree).getD tree

/-- The strokes of the tree, or of the literal in its place. -/
def shownStrokes (own : List Stroke) : List Stroke :=
  ((tree.replaced? modern folding).map Constant.strokes).getD own

def operandStrokes (outer : Operator) (right : Bool) (own : List Stroke) : List Stroke :=
  wrapped ((tree.shown modern folding).isWrapped modern outer right) (tree.shownStrokes modern folding own)

def shownLeads (own : Bool) : Bool := ((tree.replaced? modern folding).map Constant.isNegative).getD own

def shownKeeps (own : Bool) : Bool := (tree.replaced? modern folding).isSome || own

def operandLeads (outer : Operator) (right : Bool) (own : Bool) : Bool :=
  !(tree.shown modern folding).isWrapped modern outer right && tree.shownLeads modern folding own

end Operands

/-- Operations on number literals of any sign and scalar variables. -/
def isCalculation (symbols : Symbols) : Tree → Bool
  | .number _ => true
  | .var name => symbols.type name == .number || symbols.type name == .boolean
  | .arith left _ right | .compare left _ right => left.isCalculation symbols && right.isCalculation symbols
  | _ => false

/-- Whether the variable lives in a letter. -/
def isLetterAt (home : String → Slot) : Tree → Bool
  | .var name => match home name with
    | .letter _ => true
    | .overflow _ => false
  | _ => false

/-- The code of a tree in strokes, once every variable has its home. -/
def strokes (modern folding : Bool) (home : String → Slot) : Tree → List Stroke
  | .number value => Stroke.number value
  | .var name => plain (home name).code
  | .arith left op right =>
    let a := left.strokes modern folding home
    let b := right.strokes modern folding home
    if op = .mod && modern then
      plain "remainder(" ++ (left.shownStrokes modern folding a ++ plain "," ++ right.shownStrokes modern folding b) ++ plain ")"
    else
      let outer := .arith (if op = .mod then .div else op)
      let a := left.operandStrokes modern folding outer false a
      let b := right.operandStrokes modern folding outer true b
      match op with
      | .mod => Stroke.remainder a b
      | .mul =>
        if left.isLetterAt home || right.isLetterAt home then
          if right.isLiteral then b ++ a else a ++ b
        else a ++ plain "*" ++ b
      | _ => a ++ plain op.symbol ++ b
  | .compare left op right =>
    left.operandStrokes modern folding (.compare op) false (left.strokes modern folding home) ++ plain op.sign ++
      right.operandStrokes modern folding (.compare op) true (right.strokes modern folding home)
  | _ => []

section Signs

variable (modern folding : Bool)

/-- Whether the code of a tree starts with the sign of a literal. -/
def leads : Tree → Bool
  | .number value => value < 0
  | .arith left op right =>
    if op = .mod then !modern && right.operandLeads modern folding (.arith .div) true right.leads
    else left.operandLeads modern folding (.arith op) false left.leads
  | .compare left op _ => left.operandLeads modern folding (.compare op) false left.leads
  | _ => false

/-- No operand on the right of an operator starts with the sign of a literal, unless it is
in parentheses. -/
def keepsSigns : Tree → Bool
  | .arith left op right =>
    left.shownKeeps modern folding left.keepsSigns && right.shownKeeps modern folding right.keepsSigns &&
      (op = .mod && modern ||
        !right.operandLeads modern folding (.arith (if op = .mod then .div else op)) true (right.leads modern folding))
  | .compare left op right =>
    left.shownKeeps modern folding left.keepsSigns && right.shownKeeps modern folding right.keepsSigns &&
      !right.operandLeads modern folding (.compare op) true (right.leads modern folding)
  | _ => true

end Signs

/-! ### Signs of operations -/

variable {modern folding : Bool} {home : String → Slot}

theorem code?_of_replaced? {tree : Tree} {value : Constant} (replaced : tree.replaced? modern folding = some value) :
    ∃ code, value.code? = some code := by
  unfold replaced? folded? at replaced
  split at replaced
  · split at replaced
    · split at replaced
      · split at replaced
        · rename_i shorter
          cases replaced
          obtain ⟨code,written,_⟩ := (Option.any_eq_true _ _).mp shorter
          exact ⟨code, written⟩
        · cases replaced
      · cases replaced
    · cases replaced
  · cases replaced

theorem fits_shown (modern folding : Bool) (tree : Tree) {leads keeps : Bool} (fits : Fits own leads keeps) :
    Fits (tree.shownStrokes modern folding own) (tree.shownLeads modern folding leads)
      (tree.shownKeeps modern folding keeps) := by
  unfold shownStrokes shownLeads shownKeeps
  cases replaced : tree.replaced? modern folding with
  | none => exact fits
  | some value =>
    obtain ⟨code,literal⟩ := code?_of_replaced? replaced
    exact Constant.fits_strokes literal

theorem fits_operand (modern folding : Bool) (tree : Tree) {leads keeps : Bool} (fits : Fits own leads keeps) (outer : Operator)
    (right : Bool) :
    Fits (tree.operandStrokes modern folding outer right own) (tree.operandLeads modern folding outer right leads)
      (tree.shownKeeps modern folding keeps) :=
  (fits_shown modern folding tree fits).wrapped _

theorem follows_symbol (op : Arith) : Follows (plain op.symbol) false := by
  cases op <;> exact follows_plain (by decide +kernel) (by decide +kernel)

theorem follows_sign (op : Comparison) : Follows (plain op.sign) false := by
  cases op <;> exact follows_plain (by decide +kernel) (by decide +kernel)

theorem fits_remainder {leads other keeps kept : Bool} (first : Fits a leads keeps) (second : Fits b other kept) :
    Fits (Stroke.remainder a b) other (keeps && kept && !other) := by
  have times : Follows (plain "*(") true := follows_plain (by decide +kernel) (by decide +kernel)
  have whole : Follows (plain "<0)+iPart(") true := follows_plain (by decide +kernel) (by decide +kernel)
  have fraction : Follows (plain "*fPart(") true := follows_plain (by decide +kernel) (by decide +kernel)
  have ends : Closes "))" := ⟨by decide +kernel, by decide +kernel⟩
  have fits := ((((second.join times first).join whole second).join fraction first).join (follows_symbol .div) second).trail ends
  exact fits.congr (by cases leads <;> cases other <;> cases keeps <;> cases kept <;> rfl)

theorem closes_code {slot : Slot} (known : ∀ letter, slot = .letter letter → letter ∈ alphabet) : Closes slot.code := by
  have letters : ∀ c ∈ alphabet, isOperator c = false ∧ opens c = false := by simp [alphabet,isOperator,opens]
  have digits (n : Nat) : ∀ c ∈ (toString n).toList, isOperator c = false := fun c member =>
    ((closes_magnitude (by simp) fun c member => .inl (Code.isDigit_of_mem_natural member)).word c member)
  cases slot with
  | letter c =>
    have traits := letters c (known c rfl)
    exact ⟨by simpa [Slot.code] using traits.1, by simp [Slot.code,lastChar,plain,traits.2]⟩
  | overflow index =>
    have front : ∀ c ∈ "∟ARR0(".toList, isOperator c = false := by decide +kernel
    refine closes_paren.behind ?_
    rw [String.toList_append]
    exact List.forall_mem_append.mpr ⟨front, digits index⟩

section Leaves

variable (outer : Operator) (right : Bool)

theorem replaced?_of_leaf {tree : Tree} (leaf : tree.isOperation = false) : tree.replaced? modern folding = none := by
  unfold replaced? folded?
  rw [leaf]
  cases folding <;> rfl

theorem operandStrokes_var (name : String) (own : List Stroke) :
    (Tree.var name).operandStrokes modern folding outer right own = own := by
  rw [operandStrokes,shown,shownStrokes,replaced?_of_leaf rfl]
  rfl

theorem operandLeads_var (name : String) (own : Bool) : (Tree.var name).operandLeads modern folding outer right own = own := by
  rw [operandLeads,shown,shownLeads,replaced?_of_leaf rfl]
  rfl

/-- A negative literal on the right is put in parentheses. -/
theorem operandLeads_number (value : Float) :
    (Tree.number value).operandLeads modern folding outer true (decide (value < 0)) = false := by
  rw [operandLeads,shown,shownLeads,replaced?_of_leaf rfl]
  simp [isWrapped]

end Leaves

/-- The factors change places only for a letter and a literal, and neither starts with a sign. -/
theorem fits_product {left right : Tree} {leads other keeps kept : Bool} (first : Fits a leads keeps)
    (second : Fits b other kept) (quiet : (left.isLetterAt home || right.isLetterAt home) = true → right.isLiteral = true →
      leads = false ∧ other = false) :
    Fits (if left.isLetterAt home || right.isLetterAt home then if right.isLiteral then b ++ a else a ++ b
      else a ++ plain "*" ++ b) leads (keeps && kept && !other) := by
  split
  · rename_i letter
    split
    · rename_i literal
      obtain ⟨rfl,rfl⟩ := quiet letter literal
      exact (second.adjoin first).congr (by rw [Bool.and_comm kept keeps])
    · exact first.adjoin second
  · exact first.join (follows_symbol .mul) second

theorem fits_calculation {symbols : Symbols} (known : ∀ name letter, home name = .letter letter → letter ∈ alphabet)
    {tree : Tree} (calculation : tree.isCalculation symbols = true) :
    Fits (tree.strokes modern folding home) (tree.leads modern folding) (tree.keepsSigns modern folding) := by
  fun_induction isCalculation symbols tree with
  | case1 value => exact fits_number value
  | case2 name => exact (closes_code (known name)).fits
  | case3 left op right ihLeft ihRight =>
    rw [Bool.and_eq_true] at calculation
    have first (outer : Operator) := fits_operand modern folding left (ihLeft calculation.1) outer false
    have second (outer : Operator) := fits_operand modern folding right (ihRight calculation.2) outer true
    cases op with
    | add => exact (first (.arith .add)).join (follows_symbol .add) (second (.arith .add))
    | sub => exact (first (.arith .sub)).join (follows_symbol .sub) (second (.arith .sub))
    | div => exact (first (.arith .div)).join (follows_symbol .div) (second (.arith .div))
    | pow => exact (first (.arith .pow)).join (follows_symbol .pow) (second (.arith .pow))
    | mul =>
      refine fits_product (first (.arith .mul)) (second (.arith .mul)) fun letter literal => ?_
      obtain ⟨value,rfl⟩ : ∃ value, right = .number value := by
        cases right with
        | number value => exact ⟨value, rfl⟩
        | boolean | text | list => cases calculation.2
        | _ => cases literal
      obtain ⟨name,rfl⟩ : ∃ name, left = .var name := by
        cases left with
        | var name => exact ⟨name, rfl⟩
        | _ => cases letter
      exact ⟨operandLeads_var _ _ name _, operandLeads_number _ value⟩
    | mod =>
      cases modern with
      | false => exact fits_remainder (first (.arith .div)) (second (.arith .div))
      | true =>
        have comma : Follows (plain ",") true := follows_plain (by decide +kernel) (by decide +kernel)
        have both := (fits_shown true folding left (ihLeft calculation.1)).join comma
          (fits_shown true folding right (ihRight calculation.2))
        exact (both.lead (by decide +kernel) (by decide +kernel)).trail closes_paren
  | case4 left op right ihLeft ihRight =>
    rw [Bool.and_eq_true] at calculation
    have first := fits_operand modern folding left (ihLeft calculation.1) (.compare op) false
    have second := fits_operand modern folding right (ihRight calculation.2) (.compare op) true
    exact first.join (follows_sign op) second
  | case5 => cases calculation

end Tree

namespace Stroke

/-- The sign of a literal stands at the start or directly after an opening. -/
def SignsApart (strokes : List Stroke) : Prop :=
  ∀ front stroke rest, strokes = front ++ stroke :: rest → stroke.sign = true →
    ∀ before ∈ front.getLast?, opens before.char = true

theorem signsApart_iff {strokes : List Stroke} : SignsApart strokes ↔ walk signAllowed none strokes = true := by
  rw [walk_iff]
  refine forall₄_congr fun front stroke rest _ => ?_
  rw [signAllowed,lastChar,Option.or_none]
  cases stroke.sign <;> cases front.getLast? <;> simp

/-- No two operators are next to each other. -/
def OperatorsApart (code : String) : Prop :=
  ∀ front first second rest, code.toList = front ++ first :: second :: rest →
    ¬(isOperator first = true ∧ isOperator second = true)

theorem operatorsApart_text {strokes : List Stroke} (walked : walk operatorAllowed none strokes = true)
    (apart : SignsApart strokes) : OperatorsApart (text strokes) := by
  intro front first second rest same both
  rw [text,String.toList_ofList,List.map_eq_append_iff] at same
  obtain ⟨before,others,rfl,_,others⟩ := same
  obtain ⟨stroke,others,rfl,rfl,more⟩ := List.map_eq_cons_iff.mp others
  obtain ⟨next,after,rfl,rfl,_⟩ := List.map_eq_cons_iff.mp more
  have split : before ++ stroke :: next :: after = (before ++ [stroke]) ++ next :: after := by simp
  have allowed := walk_iff.mp walked _ next after split
  have last : lastChar none (before ++ [stroke]) = some stroke.char := by simp [lastChar]
  rw [last] at allowed
  cases signed : next.sign with
  | false => simp [operatorAllowed,signed,both] at allowed
  | true =>
    have opening := apart _ next after split signed stroke (by simp)
    have clash : ∀ c, opens c = true → isOperator c = false := by
      intro c opening
      simp only [opens,Bool.or_eq_true,beq_iff_eq] at opening
      rcases opening with (rfl | rfl) | rfl <;> rfl
    rw [clash _ opening] at both
    cases both.1

end Stroke

/-! ### Emitting strokes -/

theorem Tree.isNumeric_of_isSimple {symbols : Symbols} {tree : Tree} (calculation : tree.isCalculation symbols = true)
    (simple : tree.isSimple = true) : tree.isNumeric = true := by
  fun_induction isCalculation symbols tree with
  | case1 => rfl
  | case2 => cases simple
  | case3 left op right ihLeft ihRight | case4 left op right ihLeft ihRight =>
    rw [Bool.and_eq_true] at calculation
    obtain ⟨first,second⟩ := (Bool.and_eq_true _ _).mp simple
    exact (Bool.and_eq_true _ _).mpr ⟨ihLeft calculation.1 first, ihRight calculation.2 second⟩
  | case5 => cases calculation

namespace Emit
open CalcBasic.Action Symbols

variable {depth : Nat} {emitter : Emitter} {tree left right : Tree}

/-- Folding succeeds where rendering does, and settles nothing but what it remarks on. -/
theorem outcome_settle_shown (calculation : tree.isCalculation emitter.symbols = true)
    (renders : ∃ text after, outcome (render depth true tree) { emitter with folding := false } = (.ok text, after)) :
    ∃ after, outcome (settle (render depth) tree) emitter = (.ok (tree.shown emitter.modern emitter.folding), after) ∧
      Settling emitter after := by
  have asked : outcome (get : Emit Emitter) emitter = (.ok emitter, emitter) := rfl
  cases folding : emitter.folding with
  | false => exact ⟨emitter, outcome_settle folding _ tree, .refl emitter⟩
  | true =>
    cases constant : tree.isOperation && tree.isSimple with
    | false =>
      refine ⟨emitter, ?_, .refl emitter⟩
      rw [settle_of_plain constant,Tree.shown,Tree.replaced?,Tree.folded?,constant]
      rfl
    | true =>
      have numeric := Tree.isNumeric_of_isSimple calculation ((Bool.and_eq_true _ _).mp constant).2
      have coded : outcome (unfolded (render depth true tree)) emitter = (.ok (tree.plainCode emitter.modern), emitter) := by
        obtain ⟨text,after,done⟩ := renders
        obtain ⟨rfl,rfl⟩ := returns_numeric depth true numeric rfl _ text after rfl done
        rw [outcome_unfolded,done]
      unfold settle
      rw [outcome_bind_ok asked,folding,Bool.true_and,constant,if_pos rfl,Tree.shown,Tree.replaced?,Tree.folded?,constant]
      cases evaluated : tree.evaluate with
      | error reason =>
        have noted := (remark_extends emitter.symbols (.unfolded (tree.plainCode emitter.modern) reason) none).grows
        dsimp only
        split
        · rw [outcome_bind_ok coded]
          exact ⟨_, rfl, ⟨rfl, noted, rfl, rfl⟩⟩
        · exact ⟨emitter, rfl, .refl emitter⟩
      | ok result =>
        cases result with
        | none => exact ⟨emitter, rfl, .refl emitter⟩
        | some value =>
          refine ⟨emitter, ?_, .refl emitter⟩
          dsimp only
          rw [outcome_bind_ok coded,outcome_pure]
          simp only [if_true]
          split <;> rfl

/-- Rendering gives the strokes of the tree, whether folding is on or off. -/
def Renders (depth : Nat) (settled : Bool) (tree : Tree) : Prop :=
  ∀ emitter : Emitter, [overflowList] <+: emitter.symbols.lists → tree.isCalculation emitter.symbols = true →
    Settles emitter (render depth settled tree) fun home =>
      let own := tree.strokes emitter.modern emitter.folding home
      Stroke.text (if settled then own else tree.shownStrokes emitter.modern emitter.folding own)

theorem isCalculation_of_entries {before after : Symbols} (same : after.entries = before.entries) (tree : Tree) :
    tree.isCalculation after = tree.isCalculation before := by
  fun_induction Tree.isCalculation before tree with
  | case1 => rfl
  | case2 name => simp only [Tree.isCalculation,type_of_entries same]
  | case3 left op right ihLeft ihRight | case4 left op right ihLeft ihRight => simp only [Tree.isCalculation,ihLeft,ihRight]
  | case5 tree notNumber notVar notArith notCompare => rw [Tree.isCalculation] <;> assumption

theorem settles_literal {value : Constant} {code : String} (literal : value.code? = some code) (depth : Nat) (emitter : Emitter) :
    outcome (render (depth + 1) true value.tree) emitter = (.ok (Stroke.text value.strokes), emitter) := by
  cases value with
  | number value => rw [Constant.strokes,Stroke.text_number]; rfl
  | boolean value => rw [Constant.strokes,Stroke.text_plain]; rfl
  | text | list => cases literal

section Shown

variable (renders : Renders (depth + 1) true tree) (first : [overflowList] <+: emitter.symbols.lists)
  (calculation : tree.isCalculation emitter.symbols = true)
include renders first calculation

theorem outcome_shown :
    ∃ middle text after,
      outcome (settle (render (depth + 1)) tree) emitter = (.ok (tree.shown emitter.modern emitter.folding), middle) ∧
      outcome (render (depth + 1) true (tree.shown emitter.modern emitter.folding)) middle = (.ok text, after) ∧
      Settling emitter after ∧ ∀ later, Grows after.symbols later → text = Stroke.text
        (tree.shownStrokes emitter.modern emitter.folding (tree.strokes emitter.modern emitter.folding later.home)) := by
  obtain ⟨plain,last,done,_⟩ := renders { emitter with folding := false } first calculation
  obtain ⟨middle,settled,settling⟩ := outcome_settle_shown calculation ⟨plain, last, done⟩
  refine ⟨middle, ?_⟩
  cases replaced : tree.replaced? emitter.modern emitter.folding with
  | none =>
    have same : tree.shown emitter.modern emitter.folding = tree := by rw [Tree.shown,replaced]; rfl
    obtain ⟨text,after,done,further,written⟩ := renders middle (first.trans settling.grows.lists)
      ((isCalculation_of_entries settling.entries tree).trans calculation)
    refine ⟨text, after, settled, by rw [same]; exact done, settling.trans further, fun later grown => ?_⟩
    rw [written later grown,settling.modern,settling.folding,Tree.shownStrokes,replaced]
    rfl
  | some value =>
    have same : tree.shown emitter.modern emitter.folding = value.tree := by rw [Tree.shown,replaced]; rfl
    obtain ⟨code,literal⟩ := Tree.code?_of_replaced? replaced
    refine ⟨_, middle, settled, by rw [same]; exact settles_literal literal depth middle, settling, fun later _ => ?_⟩
    rw [Tree.shownStrokes,replaced]
    rfl

theorem settles_shown :
    Settles emitter (settle (render (depth + 1)) tree >>= render (depth + 1) true) fun home => Stroke.text
      (tree.shownStrokes emitter.modern emitter.folding (tree.strokes emitter.modern emitter.folding home)) := by
  obtain ⟨middle,text,after,settled,done,settling,written⟩ := outcome_shown renders first calculation
  exact ⟨text, after, by rw [outcome_bind_ok settled,done], settling, written⟩

theorem settles_operandStrokes (outer : Operator) (right : Bool) :
    Settles emitter (operand (render (depth + 1)) outer right tree) fun home => Stroke.text
      (tree.operandStrokes emitter.modern emitter.folding outer right (tree.strokes emitter.modern emitter.folding home)) := by
  obtain ⟨middle,text,after,settled,done,settling,written⟩ := outcome_shown renders first calculation
  refine ⟨(tree.shown emitter.modern emitter.folding).operandCode emitter.modern outer right text, after, ?_, settling,
    fun later grown => ?_⟩
  · unfold operand
    rw [outcome_bind_ok settled,outcome_bind_ok done]
    change (Except.ok (if Tree.isWrapped after.modern outer right _ then "(" ++ text ++ ")" else text), after) = _
    rw [settling.modern]
    rfl
  · rw [written later grown,Tree.operandCode,← Stroke.text_wrapped]
    rfl

end Shown

theorem isLetter_strokes (modern folding : Bool) (home : String → Slot) (outer : Operator) (right : Bool) (tree : Tree) :
    isLetter tree (Stroke.text (tree.operandStrokes modern folding outer right (tree.strokes modern folding home))) =
      tree.isLetterAt home := by
  cases tree with
  | var name =>
    rw [Tree.operandStrokes_var,Tree.strokes,Stroke.text_plain,isLetter,Tree.isLetterAt]
    cases home name with
    | letter c => simp [Slot.code]
    | overflow index =>
      have lead : "∟ARR0(".length = 6 := by decide +kernel
      have long : (Slot.overflow index).code.length ≠ 1 := by
        simp only [Slot.code,String.length_append]
        omega
      simp [long]
  | _ => rfl

theorem Settles.congr {action : Emit String} {code other : (String → Slot) → String} (settles : Settles emitter action code)
    (same : ∀ home, code home = other home) : Settles emitter action other :=
  funext same ▸ settles

theorem settles_both (renders : Renders (depth + 1) true left ∧ Renders (depth + 1) true right)
    (first : [overflowList] <+: emitter.symbols.lists)
    (calculation : (left.isCalculation emitter.symbols && right.isCalculation emitter.symbols) = true) (outer : Operator)
    (make : String → String → String) :
    Settles emitter (operand (render (depth + 1)) outer false left >>= fun a =>
      operand (render (depth + 1)) outer true right >>= fun b => pure (make a b)) fun home =>
        make (Stroke.text (left.operandStrokes emitter.modern emitter.folding outer false
            (left.strokes emitter.modern emitter.folding home)))
          (Stroke.text (right.operandStrokes emitter.modern emitter.folding outer true
            (right.strokes emitter.modern emitter.folding home))) := by
  obtain ⟨isLeft,isRight⟩ := (Bool.and_eq_true _ _).mp calculation
  refine (settles_operandStrokes renders.1 first isLeft outer false).pair (fun after settling => ?_) make
  have next := settles_operandStrokes renders.2 (first.trans settling.grows.lists)
    ((isCalculation_of_entries settling.entries right).trans isRight) outer true
  rwa [settling.modern,settling.folding] at next

theorem settles_arguments (renders : Renders (depth + 1) false left ∧ Renders (depth + 1) false right)
    (first : [overflowList] <+: emitter.symbols.lists)
    (calculation : (left.isCalculation emitter.symbols && right.isCalculation emitter.symbols) = true)
    (make : String → String → String) :
    Settles emitter (render (depth + 1) false left >>= fun a => render (depth + 1) false right >>= fun b => pure (make a b))
      fun home => make (Stroke.text (left.shownStrokes emitter.modern emitter.folding
            (left.strokes emitter.modern emitter.folding home)))
          (Stroke.text (right.shownStrokes emitter.modern emitter.folding
            (right.strokes emitter.modern emitter.folding home))) := by
  obtain ⟨isLeft,isRight⟩ := (Bool.and_eq_true _ _).mp calculation
  refine Settles.pair (renders.1 emitter first isLeft) (fun after settling => ?_) make
  have next := renders.2 after (first.trans settling.grows.lists)
    ((isCalculation_of_entries settling.entries right).trans isRight)
  rwa [settling.modern,settling.folding] at next

theorem renders_arith (op : Arith) (renders : ∀ settled, Renders (depth + 1) settled left ∧ Renders (depth + 1) settled right) :
    Renders (depth + 2) true (.arith left op right) := by
  intro emitter first calculation
  have asked : outcome (get : Emit Emitter) emitter = (.ok emitter, emitter) := rfl
  have operands := settles_both (renders true) first calculation
  have between (op : Arith) (a b : List Stroke) :
      Stroke.text a ++ op.symbol ++ Stroke.text b = Stroke.text (a ++ Stroke.plain op.symbol ++ b) := by
    rw [Stroke.text_append,Stroke.text_append,Stroke.text_plain]
  cases op with
  | add => exact (operands (.arith .add) fun a b => a ++ "+" ++ b).congr fun home => between .add _ _
  | sub => exact (operands (.arith .sub) fun a b => a ++ "-" ++ b).congr fun home => between .sub _ _
  | div => exact (operands (.arith .div) fun a b => a ++ "/" ++ b).congr fun home => between .div _ _
  | pow => exact (operands (.arith .pow) fun a b => a ++ "^" ++ b).congr fun home => between .pow _ _
  | mul =>
    refine Settles.congr (operands (.arith .mul) (product left right)) fun home => ?_
    rw [product,isLetter_strokes,isLetter_strokes]
    change _ = Stroke.text (if left.isLetterAt home || right.isLetterAt home then if right.isLiteral then _ ++ _ else _ ++ _
      else _ ++ Stroke.plain "*" ++ _)
    split
    · split
      · exact (Stroke.text_append _ _).symm
      · exact (Stroke.text_append _ _).symm
    · exact between .mul _ _
  | mod =>
    change Settles emitter (arithmetic (render (depth + 1)) left .mod right) _
    unfold arithmetic Settles
    rw [outcome_bind_ok asked]
    obtain ⟨symbols,modern,folding,program,inlining⟩ := emitter
    cases modern with
    | false => exact (operands (.arith .div) remainder).congr fun home => (Stroke.text_remainder _ _).symm
    | true =>
      have called (a b : List Stroke) : "remainder(" ++ Stroke.text a ++ "," ++ Stroke.text b ++ ")" =
          Stroke.text (Stroke.plain "remainder(" ++ (a ++ Stroke.plain "," ++ b) ++ Stroke.plain ")") := by
        simp only [Stroke.text_append,Stroke.text_plain,String.append_assoc]
      exact (settles_arguments (renders false) first calculation fun a b => "remainder(" ++ a ++ "," ++ b ++ ")").congr
        fun home => called _ _

theorem renders_compare (op : Comparison) (renders : Renders (depth + 1) true left ∧ Renders (depth + 1) true right) :
    Renders (depth + 2) true (.compare left op right) := by
  intro emitter first calculation
  refine Settles.congr (settles_both renders first calculation (.compare op) fun a b => a ++ op.sign ++ b) fun home => ?_
  change _ = Stroke.text (_ ++ Stroke.plain op.sign ++ _)
  rw [Stroke.text_append,Stroke.text_append,Stroke.text_plain]

/-- Every operation takes two levels at most: one on which its root is folded, and
one on which it is rendered. -/
theorem renders_calculation (depth : Nat) (settled : Bool) {symbols : Symbols} (calculation : tree.isCalculation symbols = true)
    (deep : 2 * tree.rank ≤ depth + if settled then 1 else 0) :
    Renders depth settled tree := by
  induction depth generalizing settled tree with
  | zero =>
    have positive := rank_pos tree
    split at deep <;> omega
  | succ depth lower =>
    have operands {left right : Tree} (both : (left.isCalculation symbols && right.isCalculation symbols) = true)
        (shallow : 2 * max left.rank right.rank ≤ depth) (flag : Bool) : Renders depth flag left ∧ Renders depth flag right := by
      obtain ⟨isLeft,isRight⟩ := (Bool.and_eq_true _ _).mp both
      exact ⟨lower flag isLeft (by omega), lower flag isRight (by omega)⟩
    have again {tree : Tree} (calculation : tree.isCalculation symbols = true) (shallow : 2 * tree.rank ≤ depth + 1)
        {emitter : Emitter} (first : [overflowList] <+: emitter.symbols.lists)
        (isCalculation : tree.isCalculation emitter.symbols = true) :
        Settles emitter (settle (render depth) tree >>= render depth true) fun home => Stroke.text
          (tree.shownStrokes emitter.modern emitter.folding (tree.strokes emitter.modern emitter.folding home)) := by
      obtain ⟨less,rfl⟩ := Nat.exists_eq_add_one.mpr (show 0 < depth by have := rank_pos tree; omega)
      exact settles_shown (lower true calculation shallow) first isCalculation
    cases tree with
    | number value =>
      intro emitter _ _
      refine Settles.congr (settles_pure emitter (Number.code value)) fun home => ?_
      dsimp only
      rw [Tree.shownStrokes,Tree.replaced?_of_leaf rfl,Tree.strokes]
      cases settled <;> exact (Stroke.text_number value).symm
    | var name =>
      intro emitter first scalar
      refine Settles.congr (settles_variableCode first scalar) fun home => ?_
      dsimp only
      rw [Tree.shownStrokes,Tree.replaced?_of_leaf rfl,Tree.strokes]
      cases settled <;> exact (Stroke.text_plain _).symm
    | arith left op right =>
      have pair := rank_arith left right op
      have positive := rank_pos left
      cases settled with
      | true =>
        obtain ⟨less,rfl⟩ := Nat.exists_eq_add_one.mpr (show 0 < depth by simp at deep; omega)
        exact renders_arith op (operands calculation (by simp at deep; omega))
      | false => exact fun emitter first isCalculation => again calculation (by simp at deep; omega) first isCalculation
    | compare left op right =>
      have pair := rank_compare left right op
      have positive := rank_pos left
      cases settled with
      | true =>
        obtain ⟨less,rfl⟩ := Nat.exists_eq_add_one.mpr (show 0 < depth by simp at deep; omega)
        exact renders_compare op (operands calculation (by simp at deep; omega) true)
      | false => exact fun emitter first isCalculation => again calculation (by simp at deep; omega) first isCalculation
    | _ => cases calculation

end Emit

open Symbols in
/-- The code of every operation on numbers and scalars is emitted. In it the signs of
negative literals stand at the start or after an opening if and only if no operand on the
right of an operator starts with one; and then no two operators are next to each other. -/
theorem literal_signs_apart_iff (requests : List Request) (settings : Settings) (tree : Tree)
    (calculation : tree.isCalculation (session {} requests) = true) :
    ∃ text after, (session {} requests).emit settings (Emit.code tree) = (.ok text, after) ∧
      let strokes := tree.shownStrokes settings.modern settings.simplify
        (tree.strokes settings.modern settings.simplify after.home)
      text = Stroke.text strokes ∧
      (Stroke.SignsApart strokes ↔
        tree.shownKeeps settings.modern settings.simplify (tree.keepsSigns settings.modern settings.simplify) = true) ∧
      (Stroke.SignsApart strokes → Stroke.OperatorsApart text) := by
  let start : Emitter :=
    { symbols := session {} requests, modern := settings.modern, folding := settings.simplify,
      program := settings.programName }
  have first : [overflowList] <+: start.symbols.lists := (session_extends {} requests).grows.lists
  obtain ⟨text,after,done,_,written⟩ :=
    Emit.renders_calculation (start.depth tree) false calculation (Emit.rank_le_depth start tree) start first calculation
  have fits := Tree.fits_shown settings.modern settings.simplify tree
    (@Tree.fits_calculation settings.modern settings.simplify after.symbols.home _ (fun _ _ => home_mem) _ calculation)
  have run : Action.outcome (Emit.code tree) start = (.ok text, after) := done
  refine ⟨text, after.symbols, ?_, written after.symbols (.refl _), ?_, fun apart => ?_⟩
  · exact congrArg (fun reached : Except CompileError String × Emitter => (reached.1, reached.2.symbols)) run
  · rw [Stroke.signsApart_iff,fits.signs]
    simp
  · rw [show text = _ from written after.symbols (.refl _)]
    exact Stroke.operatorsApart_text (fits.operators none) apart

open Symbols in
theorem literal_signs_apart_difference :
    let tree : Tree := .arith (.number (-1)) .sub (.arith (.number (-2)) .sub (.var "a"))
    ((session {} []).emit {} (Emit.code tree)).1 = .ok "-1-(-2-A)" ∧ Stroke.OperatorsApart "-1-(-2-A)" := by
  intro tree
  have calculation : tree.isCalculation (session {} []) = true := by decide +kernel
  have emitted : ((session {} []).emit {} (Emit.code tree)).1 = .ok "-1-(-2-A)" := by decide +kernel
  obtain ⟨text,after,done,_,apart,operators⟩ := literal_signs_apart_iff [] {} tree calculation
  rw [done] at emitted
  cases emitted
  exact ⟨congrArg Prod.fst done, operators (apart.mpr (by decide +kernel))⟩

open Symbols in
/-- The factor keeps its sign, and needs no parentheses as a summand. -/
theorem literal_sign_after_operator :
    let tree : Tree := .arith (.var "a") .add (.arith (.number (-2)) .mul (.var "b"))
    (∀ simplify, ((session {} []).emit { simplify } (Emit.code tree)).1 = .ok "A+-2B") ∧
      ¬Stroke.OperatorsApart "A+-2B" := by
  intro tree
  refine ⟨by decide +kernel, fun apart => ?_⟩
  exact apart ['A'] '+' '-' ['2', 'B'] (by decide +kernel) (by decide)

end CalcBasic
