import CalcBasic.Proofs.OperandText

/-! Closers that are left out before a store. The code of an expression opens and closes its
brackets and texts in turn, so what is open where the trimmed code ends tells the closers that
stood there. -/
namespace CalcBasic
namespace Code

/-! ### Open brackets and texts -/

/-- What is open at a place in code: a text, and brackets by the closers they wait for, the
innermost first. -/
structure Opened where
  inText : Bool := false
  awaited : List Char := []
  deriving DecidableEq, Repr

namespace Opened

/-- Outside text a closer closes the innermost bracket. -/
def step (opened : Opened) (c : Char) : Opened :=
  if c = '"' then { opened with inText := !opened.inText }
  else if opened.inText then opened
  else if c = '(' then { opened with awaited := ')' :: opened.awaited }
  else if c = '\x7b' then { opened with awaited := '\x7d' :: opened.awaited }
  else if c = ')' || c = '\x7d' then { opened with awaited := opened.awaited.tail }
  else opened

/-- What closes all that is open. -/
def closers (opened : Opened) : List Char := (if opened.inText then ['"'] else []) ++ opened.awaited

/-- The character closes nothing, or the innermost bracket with its own closer. There is nothing
that a square bracket could close. -/
def admits (opened : Opened) (c : Char) : Bool :=
  opened.inText || !isCloser c || (c != ']' && opened.awaited.head? == some c)

/-- What is open after some code; `none` if a closer was not the one waited for. -/
def after? (opened : Opened) : List Char → Option Opened
  | [] => some opened
  | c :: rest => if opened.admits c then (opened.step c).after? rest else none

theorem after?_append (opened : Opened) (code more : List Char) :
    opened.after? (code ++ more) = (opened.after? code).bind (·.after? more) := by
  induction code generalizing opened with
  | nil => rfl
  | cons c rest ih =>
    simp only [List.cons_append,after?]
    split
    · exact ih _
    · rfl

theorem foldl_of_after? {opened reached : Opened} {code : List Char} (followed : opened.after? code = some reached) :
    code.foldl step opened = reached := by
  induction code generalizing opened with
  | nil => exact Option.some.inj followed
  | cons c rest ih =>
    simp only [after?] at followed
    split at followed
    · exact ih followed
    · cases followed

/-- Closers that close all there is to close are those that were waited for. -/
theorem eq_of_closers {opened : Opened} {tail : List Char} (closing : ∀ c ∈ tail, isCloser c = true)
    (followed : opened.after? tail = some {}) : opened = ⟨false, tail⟩ := by
  induction tail generalizing opened with
  | nil => exact Option.some.inj followed
  | cons c rest ih =>
    have closer := closing c (by simp)
    simp only [after?] at followed
    split at followed
    · rename_i admitted
      have reached := ih (fun other member => closing other (by simp [member])) followed
      obtain ⟨inText,awaited⟩ := opened
      have notQuote : c ≠ '"' := by
        rintro rfl
        cases closer
      cases inText with
      | true =>
        simp only [step,notQuote,if_false,if_true] at reached
        cases reached
      | false =>
        simp only [admits,closer,Bool.not_true,Bool.false_or,Bool.and_eq_true,bne_iff_ne,beq_iff_eq] at admitted
        obtain ⟨notSquare,head⟩ := admitted
        obtain ⟨more,rfl⟩ := List.head?_eq_some_iff.mp head
        simp only [isCloser,Bool.or_eq_true,beq_iff_eq,notSquare,or_false] at closer
        rcases closer with rfl | rfl
        · exact congrArg (fun opened : Opened => Opened.mk opened.inText (')' :: opened.awaited)) reached
        · exact congrArg (fun opened : Opened => Opened.mk opened.inText ('\x7d' :: opened.awaited)) reached
    · cases followed

end Opened

/-- The code with all that is open at its end closed. -/
def completed (code : String) : String :=
  code ++ String.ofList (code.toList.foldl Opened.step {}).closers

/-- The code closes what it opens, and nothing else. -/
def Matched (code : String) : Prop := ∀ awaited, (Opened.mk false awaited).after? code.toList = some ⟨false, awaited⟩

theorem completed_eq {code : String} {opened : Opened} (followed : ({} : Opened).after? code.toList = some opened) :
    completed code = String.ofList (code.toList ++ opened.closers) := by
  rw [completed,Opened.foldl_of_after? followed,String.ofList_append,String.ofList_toList]

theorem completed_trimClosers {code : String} (matched : Matched code) : completed (trimClosers code) = code := by
  obtain ⟨tail,whole,closing⟩ := Text.trimEndWhile_append isCloser code.toList
  have followed := matched []
  rw [← whole,Opened.after?_append,Option.bind_eq_some_iff] at followed
  obtain ⟨opened,before,rest⟩ := followed
  obtain rfl := Opened.eq_of_closers closing rest
  unfold trimClosers
  dsimp only
  generalize Text.trimEndWhile isCloser code.toList = bare at whole before
  have same : code = String.ofList (bare ++ tail) := by rw [whole,String.ofList_toList]
  split
  · rename_i quoted
    -- the last quote was taken off too, so its text is still open
    obtain ⟨start,rfl⟩ := List.getLast?_eq_some_iff.mp (beq_iff_eq.mp quoted)
    rw [Opened.after?_append,Option.bind_eq_some_iff] at before
    obtain ⟨⟨inText,awaited⟩,start',last⟩ := before
    have closes : Opened.after? ⟨inText, awaited⟩ ['"'] = some ⟨!inText, awaited⟩ := by
      cases inText <;> rfl
    rw [closes] at last
    obtain ⟨text,rfl⟩ := Opened.mk.inj (Option.some.inj last)
    have open' : inText = true := by simpa using text
    subst open'
    rw [completed_eq (by rw [List.dropLast_concat,String.toList_ofList]; exact start'),List.dropLast_concat,
      String.toList_ofList,same,List.append_assoc]
    rfl
  · rw [completed_eq (by rw [String.toList_ofList]; exact before),String.toList_ofList,same]
    rfl

/-! ### Matched code -/

/-- Characters that open or close nothing. -/
def isNeutral (c : Char) : Bool := c != '"' && c != '(' && c != '\x7b' && !isCloser c

theorem Opened.after?_of_neutral {code : List Char} (neutral : ∀ c ∈ code, isNeutral c = true) (opened : Opened) :
    opened.after? code = some opened := by
  induction code with
  | nil => rfl
  | cons c rest ih =>
    have first := neutral c (by simp)
    simp only [isNeutral,Bool.and_eq_true,bne_iff_ne,Bool.not_eq_true'] at first
    obtain ⟨⟨⟨noQuote,noParen⟩,noBrace⟩,noCloser⟩ := first
    have stays : opened.step c = opened := by
      simp only [isCloser,Bool.or_eq_false_iff,beq_eq_false_iff_ne] at noCloser
      simp [step,noQuote,noParen,noBrace,noCloser]
    rw [after?,if_pos (by simp [admits,noCloser]),stays]
    exact ih fun other member => neutral other (by simp [member])

theorem Opened.after?_in_text {code : List Char} (unquoted : '"' ∉ code) (awaited : List Char) :
    (Opened.mk true awaited).after? code = some ⟨true, awaited⟩ := by
  induction code with
  | nil => rfl
  | cons c rest ih =>
    rw [List.mem_cons,not_or] at unquoted
    have stays : (Opened.mk true awaited).step c = ⟨true, awaited⟩ := by
      simp only [step,Ne.symm unquoted.1,if_false,if_true]
    have admitted : (Opened.mk true awaited).admits c = true := rfl
    rw [after?,admitted,if_pos rfl,stays]
    exact ih unquoted.2

theorem matched_of_neutral {code : String} (neutral : ∀ c ∈ code.toList, isNeutral c = true) : Matched code :=
  fun _ => Opened.after?_of_neutral neutral _

namespace Matched

theorem append {code more : String} (first : Matched code) (second : Matched more) : Matched (code ++ more) := by
  intro awaited
  rw [String.toList_append,Opened.after?_append,first awaited]
  exact second awaited

theorem parenthesized {code : String} (matched : Matched code) : Matched ("(" ++ code ++ ")") := by
  intro awaited
  have opens : (Opened.mk false awaited).after? "(".toList = some ⟨false, ')' :: awaited⟩ := rfl
  have closes : (Opened.mk false (')' :: awaited)).after? ")".toList = some ⟨false, awaited⟩ := rfl
  rw [String.toList_append,String.toList_append,Opened.after?_append,Opened.after?_append,opens,Option.bind_some,matched,
    Option.bind_some,closes]

theorem applied {code list : String} (matched : Matched code) (inner : Matched list) : Matched (code ++ "(" ++ list ++ ")") := by
  have whole := matched.append inner.parenthesized
  simpa only [String.append_assoc] using whole

theorem braced {code : String} (matched : Matched code) : Matched (Emit.braced code) := by
  intro awaited
  have opens : (Opened.mk false awaited).after? "\x7b".toList = some ⟨false, '\x7d' :: awaited⟩ := rfl
  have closes : (Opened.mk false ('\x7d' :: awaited)).after? "\x7d".toList = some ⟨false, awaited⟩ := rfl
  rw [Emit.braced,String.toList_append,String.toList_append,Opened.after?_append,Opened.after?_append,opens,Option.bind_some,
    matched,Option.bind_some,closes]

end Matched

theorem matched_quoted {text : String} (unquoted : '"' ∉ text.toList) : Matched ("\"" ++ text ++ "\"") := by
  intro awaited
  have opens : (Opened.mk false awaited).after? "\"".toList = some ⟨true, awaited⟩ := rfl
  have closes : (Opened.mk true awaited).after? "\"".toList = some ⟨false, awaited⟩ := rfl
  rw [String.toList_append,String.toList_append,Opened.after?_append,Opened.after?_append,opens,Option.bind_some,
    Opened.after?_in_text unquoted,Option.bind_some,closes]

end Code

/-! ### Trees -/

namespace FunctionTable

/-- The name is that of a builtin with a rendering of its own, which the program does not redefine. -/
def isDirect (table : FunctionTable) (name : String) : Bool :=
  match table.find? name with
  | some (.builtin f) => f.expansion.isNone
  | _ => false

end FunctionTable

namespace Tree

variable (table : FunctionTable)

def isClosedNode : Tree → Bool
  | .number _ | .boolean _ | .list _ | .var _ | .listVar _ | .textVar _ | .commas _ | .range .. => true
  | .element .. | .arith .. | .compare .. => true
  | .text value => !value.toList.contains '"'
  | .call name _ _ => table.isDirect name
  | .membership .. => table.isDirect "array_sum"
  | _ => false

/-- Expressions of literals without quotes in texts, variables, operations and calls of builtins. -/
def isClosed (tree : Tree) : Bool := tree.everywhere (isClosedNode table)

variable {table} {tree : Tree}

theorem isClosed_iff : tree.isClosed table = true ↔
    tree.isClosedNode table = true ∧ ∀ child ∈ tree.children, child.isClosed table = true :=
  everywhere_iff

end Tree

/-! ### Code of closed trees -/

namespace Emit
open CalcBasic.Action

variable {table : FunctionTable}

theorem isNeutral_of_isDigit {c : Char} (digit : c.isDigit = true) : Code.isNeutral c = true := by
  have apart (other : Char) (ordinary : other.isDigit = false) : c ≠ other := by
    rintro rfl
    rw [ordinary] at digit
    cases digit
  simp only [Code.isNeutral,Code.isCloser,Bool.and_eq_true,bne_iff_ne,Bool.not_eq_true',Bool.or_eq_false_iff,
    beq_eq_false_iff_ne]
  exact ⟨⟨⟨apart _ rfl, apart _ rfl⟩, apart _ rfl⟩, ⟨apart _ rfl, apart _ rfl⟩, apart _ rfl⟩

theorem matched_natural (n : Nat) : Code.Matched (toString n) :=
  Code.matched_of_neutral fun _ member => isNeutral_of_isDigit (Code.isDigit_of_mem_natural member)

theorem matched_base36 (n : Nat) : Code.Matched (Number.base36 n) :=
  Code.matched_of_neutral (Number.forall_mem_base36 (by decide) n)

theorem matched_number (value : Float) : Code.Matched (Number.code value) := by
  obtain ⟨magnitude,_,digits,code⟩ := Number.code_shape value
  rw [code]
  refine Code.Matched.append ?_ (Code.matched_of_neutral fun c member => ?_)
  · split <;> exact Code.matched_of_neutral (by decide)
  · rcases digits c member with digit | other
    · exact isNeutral_of_isDigit digit
    · have others : ∀ c ∈ ['.','i','n','f','N','a'], Code.isNeutral c = true := by decide
      exact others c other

theorem matched_name {code : String} (name : IsName code) : Code.Matched code := by
  have letters : ∀ letter ∈ alphabet, ∀ c ∈ letter.toString.toList, Code.isNeutral c = true := by decide
  have list (n : Nat) : Code.Matched ("∟" ++ ("ARR" ++ Number.base36 n)) :=
    (Code.matched_of_neutral (by decide)).append ((Code.matched_of_neutral (by decide)).append (matched_base36 n))
  cases name with
  | letter known => exact Code.matched_of_neutral (letters _ known)
  | text n => exact (Code.matched_of_neutral (by decide)).append (matched_natural n)
  | list n => exact list n
  | cell n index => exact (list n).applied (matched_natural index)

theorem matched_remainder {a b : String} (matchedLeft : Code.Matched a) (matchedRight : Code.Matched b) :
    Code.Matched (remainder a b) := by
  have grouped : remainder a b = b ++ "*" ++ ("(" ++ (a ++ "<0") ++ ")") ++ "+iPart" ++
      ("(" ++ (b ++ "*fPart" ++ ("(" ++ (a ++ "/" ++ b) ++ ")")) ++ ")") := by
    apply String.toList_injective
    simp [remainder,String.toList_append]
  have times : Code.Matched "*" := Code.matched_of_neutral (by decide)
  have less : Code.Matched "<0" := Code.matched_of_neutral (by decide)
  have whole : Code.Matched "+iPart" := Code.matched_of_neutral (by decide)
  have part : Code.Matched "*fPart" := Code.matched_of_neutral (by decide)
  have slash : Code.Matched "/" := Code.matched_of_neutral (by decide)
  rw [grouped]
  have quotient := ((matchedLeft.append slash).append matchedRight).parenthesized
  exact (((matchedRight.append times).append (matchedLeft.append less).parenthesized).append whole).append
    ((matchedRight.append part).append quotient).parenthesized

theorem phrasing_closed :
    Phrasing (Knows table) (·.isClosed table = true) (fun _ => false) (fun _ => Code.Matched) where
  moves := knows_of_moves
  child isClosed _ isChild := (Tree.isClosed_iff.mp isClosed).2 _ isChild
  made _ _ := (List.any_eq_false.mpr (by simp)).symm
  literal {tree value code} _ _ written := by
    refine ⟨Tree.isClosed_iff.mpr ?_, rfl⟩
    cases value with
    | number | boolean => simp [Constant.tree,Tree.isClosedNode]
    | text | list => cases written
  counted _ := rfl
  text isClosed := Code.matched_quoted (by simpa [Tree.isClosedNode] using (Tree.isClosed_iff.mp isClosed).1)
  name := matched_name
  number := matched_number
  mark {mark} isMark := by
    have neutral : ∀ mark ∈ joiners, ∀ c ∈ mark.toList, Code.isNeutral c = true := by decide
    exact Code.matched_of_neutral (neutral mark isMark)
  beside first second := first.append second
  wrapped matched := matched.parenthesized
  braced matched := matched.braced
  remainder := matched_remainder
  modulo {_ _ a b} first second := by
    have name : Code.Matched "remainder" := Code.matched_of_neutral (by decide)
    have whole := name.applied ((first.append (Code.matched_of_neutral (by decide) : Code.Matched ",")).append second)
    have head : "remainder(" = "remainder" ++ "(" := by decide
    rw [head]
    simpa only [String.append_assoc] using whole

/-- Every successful run writes code that closes what it opens. -/
abbrev WritesMatched (table : FunctionTable) (action : Emit String) : Prop := Returns (Knows table) action Code.Matched

section Rendering

variable {render : Renderer}

/-- Renders every closed tree to code that closes what it opens. -/
abbrev WritesClosed (table : FunctionTable) (render : Renderer) : Prop :=
  Phrases (Knows table) (·.isClosed table = true) (fun _ => false) (fun _ => Code.Matched) render

variable (closed : WritesClosed table render)
include closed

/-! ### Calls -/

theorem matched_call {name : String} (direct : table.isDirect name = true) {arguments : List Tree}
    (areClosed : ∀ argument ∈ arguments, argument.isClosed table = true) (line : Nat) :
    WritesMatched table (call render name arguments line) := by
  have targets : ∀ f ∈ Builtin.catalogue, ∀ c ∈ f.target.toList, Code.isNeutral c = true := by decide
  have blank : Code.Matched " " := Code.matched_of_neutral (by decide)
  unfold call
  refine returns_bind returns_get fun emitter known => ?_
  rw [known]
  unfold FunctionTable.isDirect at direct
  split at direct
  · rename_i f found
    have target : Code.Matched f.target := Code.matched_of_neutral (targets f (FunctionTable.mem_catalogue found))
    rw [found]
    dsimp only
    unfold builtinCall
    rw [Option.isNone_iff_eq_none.mp direct]
    dsimp only
    split
    · exact returns_throw _
    split
    · exact returns_pure target
    · refine returns_bind (phrasing_closed.renderAll closed areClosed) fun codes matched => returns_pure ?_
      split
      · exact target.applied matched
      · exact (target.append blank).append matched
  · cases direct

/-! ### Closed trees -/

theorem matched_construct {tree : Tree} (isClosed : tree.isClosed table = true) (settled : Bool) :
    WritesMatched table (construct render settled tree) := by
  refine phrasing_closed.construct closed settled isClosed fun special => ?_
  obtain ⟨node,areClosed⟩ := Tree.isClosed_iff.mp isClosed
  cases tree with
  | call name arguments line => exact matched_call closed node areClosed line
  | membership value collection =>
    refine matched_call closed node (fun argument member => ?_) 0
    rw [List.mem_singleton.mp member]
    exact Tree.isClosed_iff.mpr ⟨rfl, areClosed⟩
  | native | assign | block | branch | forEach | loop | function | line => cases node
  | _ => cases special

end Rendering

theorem writesClosed_render (depth : Nat) : WritesClosed table (render depth) := by
  induction depth with
  | zero => exact ⟨keeps_render 0, fun _ _ _ => returns_throw _⟩
  | succ depth lower =>
    exact ⟨keeps_render (depth + 1), fun settled tree isClosed => matched_construct lower isClosed settled⟩

end Emit

/-- Nothing is lost by leaving closers out: what is open tells them. -/
theorem omitted_closers_restored (emitter : Emitter) (depth : Nat) (settled : Bool) (tree : Tree) (text : String)
    (isClosed : tree.isClosed emitter.symbols.functions = true)
    (rendered : (Action.outcome (Emit.render depth settled tree) emitter).1 = .ok text) :
    Code.completed (Code.trimClosers text) = text := by
  obtain ⟨matched,_⟩ := (Emit.writesClosed_render depth).writes settled tree isClosed emitter text
    (Action.outcome (Emit.render depth settled tree) emitter).2 rfl (Prod.ext rendered rfl)
  exact Code.completed_trimClosers matched

/-- The code of `l["a)" in ["b{", str_sub("xa)", 2)]]`, with closers in its texts. -/
theorem omitted_closers_restored_nested :
    let emitter : Emitter := { symbols := {}, modern := true, folding := true, program := "TIADV" }
    let tree : Tree := .element (.listVar "l") (.membership (.text "a)")
      (.list [.text "b\x7b", .call "str_sub" [.text "xa)", .number 2] 1]))
    let text := "∟ARR1(sum(\"a)\"=\x7b\"b\x7b\",sub(\"xa)\",2)\x7d))"
    tree.isClosed emitter.symbols.functions = true ∧
      (Action.outcome (Emit.render 20 false tree) emitter).1 = .ok text ∧
      Code.completed (Code.trimClosers text) = text := by
  intro emitter tree text
  have isClosed : tree.isClosed emitter.symbols.functions = true := by decide +kernel
  have rendered : (Action.outcome (Emit.render 20 false tree) emitter).1 = .ok text := by decide +kernel
  exact ⟨isClosed, rendered, omitted_closers_restored emitter 20 false tree text isClosed rendered⟩

/-- Where a program has its own `array_sum`, `1 in [1, 2, 3]` runs the program again, and the list
of arguments it passes was trimmed before the store. -/
theorem omitted_closers_of_own_sum :
    let own : UserFunction := { name := "array_sum", id := 0, inline := false, params := ["a"], required := 1, body := none }
    let emitter : Emitter :=
      { symbols := { functions := ⟨[own]⟩ }, modern := true, folding := true, program := "TIADV" }
    let tree : Tree := .membership (.number 1) (.list [.number 1, .number 2, .number 3])
    let text := "\x7b1=\x7b1,2,3→∟ARG0:0→A:prgmTIADV:Ans"
    (Action.outcome (Emit.code tree) emitter).1 = .ok text ∧
      Code.completed (Code.trimClosers text) = text ++ "\x7d\x7d" := by
  decide +kernel

end CalcBasic
