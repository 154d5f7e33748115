import CalcBasic.Proofs.Lasting

/-! Products without a sign between their factors. A letter stands next to any other
factor, and the two are apart as tokens unless the letter follows the name of a list: the
name then takes the letter in. -/
namespace CalcBasic
open List

/-! ### Tokens of the calculator -/

namespace Code

variable {c : Char} {code : List Char}

def isNumeral (c : Char) : Bool := c.isDigit || c == '.'

/-- Letters and digits, of which the names of lists are made. -/
def isNamePart (c : Char) : Bool := c.isAlpha || c == 'θ' || c.isDigit

def listMark : Char := '∟'

/-- The tokens of code. A numeral takes all digits and points that follow, and the name of
a list all letters and digits; everything else is a token of one character. -/
def tokens : List Char → List (List Char)
  | [] => []
  | c :: rest =>
    if isNumeral c then (c :: rest.takeWhile isNumeral) :: tokens (rest.dropWhile isNumeral)
    else if c = listMark then (c :: rest.takeWhile isNamePart) :: tokens (rest.dropWhile isNamePart)
    else [c] :: tokens rest
termination_by code => code.length
decreasing_by
  · exact Nat.lt_succ_of_le (dropWhile_suffix _).length_le
  · exact Nat.lt_succ_of_le (dropWhile_suffix _).length_le
  · exact Nat.lt_succ_self _

section Stop

variable {keeps : Char → Bool} {c : Char} (stops : keeps c = false) (rest more : List Char)
include stops

theorem takeWhile_stop : (rest ++ c :: more).takeWhile keeps = rest.takeWhile keeps := by
  induction rest with
  | nil => simp [stops]
  | cons first rest ih => by_cases kept : keeps first <;> simp [kept,ih]

theorem dropWhile_stop : (rest ++ c :: more).dropWhile keeps = rest.dropWhile keeps ++ c :: more := by
  induction rest with
  | nil => simp [stops]
  | cons first rest ih => by_cases kept : keeps first <;> simp [kept,ih]

end Stop

/-- A character that is no part of a number or name starts a token of its own. -/
theorem tokens_append_cons (numeral : isNumeral c = false) (part : isNamePart c = false) (code more : List Char) :
    tokens (code ++ c :: more) = tokens code ++ tokens (c :: more) := by
  fun_induction tokens code with
  | case1 => rfl
  | case2 first rest starts ih =>
    rw [cons_append,tokens,if_pos starts,takeWhile_stop numeral,dropWhile_stop numeral,ih,cons_append]
  | case3 rest other ih =>
    rw [cons_append,tokens,if_neg other,if_pos rfl,takeWhile_stop part,dropWhile_stop part,ih,cons_append]
  | case4 first rest other notMark ih =>
    rw [cons_append,tokens,if_neg other,if_neg notMark,ih,cons_append]

theorem tokens_single (numeral : isNumeral c = false) (notMark : c ≠ listMark) (code : List Char) :
    tokens (c :: code) = [c] :: tokens code := by
  rw [tokens,numeral,if_neg Bool.false_ne_true,if_neg notMark]

/-- The code ends in the name of a list. -/
def EndsInName (code : List Char) : Prop :=
  ∃ front name, code = front ++ listMark :: name ∧ ∀ c ∈ name, isNamePart c = true

theorem EndsInName.suffix (ends : EndsInName code) (front : List Char) : EndsInName (front ++ code) := by
  obtain ⟨before,name,rfl,parts⟩ := ends
  exact ⟨front ++ before, name, by simp, parts⟩

theorem tokens_name {name : List Char} (parts : ∀ c ∈ name, isNamePart c = true) (front : List Char) :
    tokens (front ++ listMark :: name) = tokens front ++ [listMark :: name] := by
  have whole := takeWhile_eq_self_iff.mpr parts
  have none := dropWhile_eq_nil_iff.mpr parts
  rw [tokens_append_cons (by decide) (by decide),tokens,if_neg (by decide),if_pos rfl,whole,none,tokens]

/-- A name takes in what follows it. -/
theorem length_tokens_of_endsInName (ends : EndsInName code) (part : isNamePart c = true) :
    (tokens (code ++ [c])).length = (tokens code).length := by
  obtain ⟨front,name,rfl,parts⟩ := ends
  have longer : ∀ d ∈ name ++ [c], isNamePart d = true :=
    forall_mem_append.mpr ⟨parts, forall_mem_singleton.mpr part⟩
  rw [append_assoc,cons_append,tokens_name longer,tokens_name parts,length_append,length_append]
  rfl

theorem tokens_concat (apart : ¬EndsInName code) (numeral : isNumeral c = false)
    (notMark : c ≠ listMark) : tokens (code ++ [c]) = tokens code ++ [[c]] := by
  fun_induction tokens code with
  | case1 => rw [nil_append,tokens_single numeral notMark,tokens]; rfl
  | case2 first rest starts ih =>
    have within : ¬EndsInName (rest.dropWhile isNumeral) := fun ends => apart <| by
      have longer := ends.suffix (first :: rest.takeWhile isNumeral)
      rwa [cons_append,takeWhile_append_dropWhile] at longer
    rw [cons_append,tokens,if_pos starts,takeWhile_stop numeral,dropWhile_stop numeral,ih within,cons_append]
  | case3 rest other ih =>
    have within : ¬EndsInName (rest.dropWhile isNamePart) := fun ends => apart <| by
      have longer := ends.suffix (listMark :: rest.takeWhile isNamePart)
      rwa [cons_append,takeWhile_append_dropWhile] at longer
    -- the name ends before the code does
    have left : rest.dropWhile isNamePart ≠ [] := fun none => apart ⟨[], rest, rfl, dropWhile_eq_nil_iff.mp none⟩
    have shorter : (rest.takeWhile isNamePart).length ≠ rest.length := fun same =>
      left (dropWhile_eq_nil_iff.mpr (takeWhile_eq_self_iff.mp ((List.takeWhile_prefix _).eq_of_length same)))
    rw [cons_append,tokens,if_neg other,if_pos rfl,List.takeWhile_append,if_neg shorter,List.dropWhile_append,
      if_neg (by simpa using left),ih within,cons_append]
  | case4 first rest other isOther ih =>
    have within : ¬EndsInName rest := fun ends => apart (ends.suffix [first])
    rw [cons_append,tokens,if_neg other,if_neg isOther,ih within,cons_append]

theorem endsInName_append_cons (part : isNamePart c = false) (notMark : c ≠ listMark) (code more : List Char) :
    EndsInName (code ++ c :: more) ↔ EndsInName more := by
  refine ⟨?_, fun ends => by simpa using ends.suffix (code ++ [c])⟩
  rintro ⟨front,name,same,parts⟩
  have absent : c ∉ listMark :: name := by
    intro member
    rcases mem_cons.mp member with same | member
    · exact notMark same
    · rw [parts c member] at part; cases part
  rcases append_eq_append_iff.mp same with ⟨between,rfl,rest⟩ | ⟨between,rfl,rest⟩
  · cases between with
    | nil => exact absurd (by rw [← nil_append (listMark :: name),← rest]; simp) absent
    | cons first between =>
      rw [cons_append,List.cons.injEq] at rest
      exact ⟨between, name, rest.2, parts⟩
  · exact absurd (by rw [rest]; simp) absent

theorem endsInName_concat (part : isNamePart c = true) (code : List Char) : EndsInName (code ++ [c]) ↔ EndsInName code := by
  constructor
  · rintro ⟨front,name,same,parts⟩
    rcases eq_nil_or_concat' name with rfl | ⟨rest,last,rfl⟩
    · obtain rfl : c = listMark := (List.cons.inj (append_inj_right' same rfl)).1
      cases part
    · rw [← cons_append,← append_assoc] at same
      exact ⟨front, rest, (append_inj_left' same rfl), fun d member => parts d (mem_append_left _ member)⟩
  · rintro ⟨front,name,rfl,parts⟩
    exact ⟨front, name ++ [c], by simp, forall_mem_append.mpr ⟨parts, forall_mem_singleton.mpr part⟩⟩

theorem endsInName_cons (notMark : c ≠ listMark) (code : List Char) : EndsInName (c :: code) ↔ EndsInName code := by
  refine ⟨?_, fun ends => ends.suffix [c]⟩
  rintro ⟨front,name,same,parts⟩
  cases front with
  | nil => exact absurd (List.cons.inj same).1 notMark
  | cons first front => exact ⟨front, name, (List.cons.inj same).2, parts⟩

theorem not_endsInName (unmarked : listMark ∉ code) : ¬EndsInName code := by
  rintro ⟨front,name,rfl,-⟩
  exact unmarked (by simp)

theorem not_endsInName_closed (code : String) : ¬EndsInName (code ++ ")").toList := by
  rw [String.toList_append]
  exact fun ends => not_endsInName (by simp) ((endsInName_append_cons (by decide) (by decide) code.toList []).mp ends)

theorem letter_traits : ∀ c ∈ alphabet, isNamePart c = true ∧ isNumeral c = false ∧ c ≠ listMark := by
  simp [alphabet,isNamePart,isNumeral,listMark]

end Code

/-! ### Factors -/

/-- Numbers, variables, list variables, elements of lists, and products of them. -/
def Tree.isFactor : Tree → Bool
  | .number _ | .var _ | .listVar _ | .element .. => true
  | .arith left .mul right => left.isFactor && right.isFactor
  | _ => false

/-- The variable is a scalar that lives in a letter. -/
def Symbols.isLetter (symbols : Symbols) (name : String) : Bool :=
  match symbols.type name, symbols.home name with
  | .number, .letter _ | .boolean, .letter _ => true
  | _, _ => false

namespace Tree

variable (symbols : Symbols)

def isLetter : Tree → Bool
  | .var name => symbols.isLetter name
  | _ => false

/-- The last factor that is no letter is a list. -/
def endsInList : Tree → Bool
  | .var name => symbols.type name == .list
  | .listVar _ => true
  | .arith left .mul right => right.endsInList || right.isLetter symbols && left.endsInList
  | _ => false

theorem endsInList_of_isSimple {tree : Tree} (simple : tree.isSimple = true) : tree.endsInList symbols = false := by
  fun_induction endsInList symbols tree with
  | case1 | case2 => cases simple
  | case3 left right ihRight ihLeft =>
    rw [isSimple,Bool.and_eq_true] at simple
    rw [ihRight simple.2,ihLeft simple.1,Bool.and_false]
    rfl
  | case4 => rfl

end Tree

namespace Emit
open CalcBasic.Action Symbols Code

variable {text name : String} {tree left right : Tree} {emitter after : Emitter}

/-- What the end of the code of a factor tells of the factor. -/
structure Ends (symbols : Symbols) (tree : Tree) (text : String) : Prop where
  name : EndsInName text.toList ↔ tree.endsInList symbols = true
  letter : isLetter tree text = tree.isLetter symbols
  single : tree.isLetter symbols = true → ∃ c ∈ alphabet, text.toList = [c]

/-- It tells so as long as types and homes stay. -/
def EndsFrom (symbols : Symbols) (tree : Tree) (text : String) : Prop :=
  ∀ later, Grows symbols later → later.entries = symbols.entries → Ends later tree text

theorem Ends.of_plain {symbols : Symbols} (plain : ¬EndsInName text.toList) (noList : tree.endsInList symbols = false)
    (notVar : tree.kind ≠ .var) : Ends symbols tree text := by
  have noLetter : tree.isLetter symbols = false := by
    cases tree <;> first | rfl | exact absurd rfl notVar
  refine ⟨iff_of_false plain (by simp [noList]), ?_, by simp [noLetter]⟩
  rw [noLetter,isLetter,decide_eq_false notVar,Bool.false_and]

theorem listName_traits (symbols : Symbols) (name : String) :
    EndsInName ("∟" ++ (symbols.listName name).1).toList ∧ 1 < ("∟" ++ (symbols.listName name).1).length := by
  have letters : ∀ c ∈ "ARR".toList, isNamePart c = true := by simp [isNamePart]
  refine ⟨⟨[], (symbols.listName name).1.toList, by simp [listMark], fun c member => ?_⟩, ?_⟩
  · simp only [Symbols.listName,String.toList_append,mem_append] at member
    rcases member with lead | member
    · exact letters c lead
    · exact @Number.forall_mem_base36 (isNamePart · = true) (by decide) _ c member
  · have lead : "∟".length = 1 ∧ "ARR".length = 3 := by decide +kernel
    simp only [Symbols.listName,String.length_append]
    omega

theorem outcome_listCode (name : String) (emitter : Emitter) : outcome (listCode name) emitter =
    (.ok ("∟" ++ (emitter.symbols.listName name).1), { emitter with symbols := (emitter.symbols.listName name).2 }) := rfl

theorem endsFrom_listVar (symbols : Symbols) (name : String) (after : Symbols) :
    EndsFrom after (.listVar name) ("∟" ++ (symbols.listName name).1) :=
  fun _ _ _ => ⟨iff_of_true (listName_traits symbols name).1 rfl, rfl, fun letter => nomatch letter⟩

theorem Ends.of_long {symbols : Symbols} (ends : EndsInName text.toList ↔ symbols.type name = .list) (long : 1 < text.length)
    (noLetter : symbols.isLetter name = false) : Ends symbols (.var name) text := by
  refine ⟨ends.trans beq_iff_eq.symm, ?_, fun letter => absurd (noLetter.symm.trans letter) Bool.false_ne_true⟩
  have size : text.length ≠ 1 := by omega
  rw [isLetter,decide_eq_false size,Bool.and_false]
  exact noLetter.symm

theorem endsFrom_scalarCode (scalar : emitter.symbols.type name = .number ∨ emitter.symbols.type name = .boolean)
    (done : outcome (scalarCode name) emitter = (.ok text, after)) :
    EndsFrom after.symbols (.var name) text ∧ Grows emitter.symbols after.symbols ∧
      after.symbols.entries = emitter.symbols.entries := by
  have queried : outcome (query (·.slot name)) emitter =
      (.ok (emitter.symbols.home name),{ emitter with symbols := (emitter.symbols.slot name).2 }) := rfl
  have grown := (slot_extends emitter.symbols name).grows
  have kept {later : Symbols} (grown : Grows (emitter.symbols.slot name).2 later) :
      later.home name = emitter.symbols.home name := (slot_later grown name).mpr rfl
  have typed {later : Symbols} (same : later.entries = emitter.symbols.entries) :
      later.type name = .number ∨ later.type name = .boolean := by rwa [type_of_entries same]
  have noList {later : Symbols} (same : later.entries = emitter.symbols.entries) : later.type name ≠ .list := by
    rcases typed same with number | boolean
    · rw [number]; decide
    · rw [boolean]; decide
  unfold scalarCode at done
  rw [outcome_bind_ok queried] at done
  cases housed : emitter.symbols.home name with
  | letter letter =>
    rw [housed] at done
    cases done
    refine ⟨fun later more same => ?_, grown, rfl⟩
    have member := home_mem housed
    have traits := letter_traits letter member
    have single : letter.toString.toList = [letter] := by simp
    have isLetter : (Tree.var name).isLetter later = true := by
      rcases typed same with number | boolean
      · simp [Tree.isLetter,Symbols.isLetter,number,kept more,housed]
      · simp [Tree.isLetter,Symbols.isLetter,boolean,kept more,housed]
    refine ⟨iff_of_false ?_ ?_, ?_, fun _ => ⟨letter, member, single⟩⟩
    · rw [single]
      exact not_endsInName (by simpa using traits.2.2.symm)
    · simpa [Tree.endsInList] using noList same
    · rw [isLetter]
      simp [Emit.isLetter]
  | overflow index =>
    rw [housed] at done
    have listed := (listName_extends (emitter.symbols.slot name).2 overflowList).grows
    dsimp only at done
    rw [outcome_bind_ok (outcome_listCode _ _)] at done
    cases done
    refine ⟨fun later more same => ?_, grown.trans listed, rfl⟩
    have noLetter : later.isLetter name = false := by
      simp [Symbols.isLetter,kept (listed.trans more),housed]
    refine Ends.of_long (iff_of_false (not_endsInName_closed _) (noList same)) ?_ noLetter
    have long := (listName_traits (emitter.symbols.slot name).2 overflowList).2
    simp only [String.length_append] at long ⊢
    omega

theorem endsFrom_textCode (typed : emitter.symbols.type name = .text)
    (done : outcome (textCode name) emitter = (.ok text, after)) :
    EndsFrom after.symbols (.var name) text ∧ Grows emitter.symbols after.symbols ∧
      after.symbols.entries = emitter.symbols.entries := by
  have queried : outcome (query (·.textName name)) emitter =
      (.ok (emitter.symbols.textName name).1,{ emitter with symbols := (emitter.symbols.textName name).2 }) := rfl
  unfold textCode at done
  rw [outcome_bind_ok queried] at done
  cases given : (emitter.symbols.textName name).1 with
  | none => rw [given] at done; cases done
  | some code =>
    rw [given] at done
    cases done
    have kept : (emitter.symbols.textName name).2.entries = emitter.symbols.entries := by
      rcases textName_cases emitter.symbols name with same | ⟨_,_,same⟩
      · rw [same]
      · rw [same]
    refine ⟨fun later _ same => ?_, (textName_extends _ name).grows, kept⟩
    have stays : later.type name = .text := (type_of_entries (same.trans kept) name).trans typed
    have noLetter : later.isLetter name = false := by simp [Symbols.isLetter,stays]
    obtain ⟨_,rfl⟩ := (textName_eq_some_iff emitter.symbols name text).mp given
    have lead : listMark ∉ "Str".toList := by simp [listMark]
    have digits (n : Nat) : listMark ∉ (toString n).toList := fun member =>
      absurd (isDigit_of_mem_natural member) (by decide)
    refine Ends.of_long (iff_of_false (not_endsInName ?_) (by simp [stays])) ?_ noLetter
    · rw [textVariable,String.toList_append,mem_append]
      exact fun member => member.elim lead (digits _)
    · have size : "Str".length = 3 := by decide +kernel
      rw [textVariable,String.length_append]
      omega

/-- Asking for a variable changes no type and moves nothing. -/
theorem endsFrom_variableCode (done : outcome (variableCode name) emitter = (.ok text, after)) :
    EndsFrom after.symbols (.var name) text ∧ Grows emitter.symbols after.symbols ∧
      after.symbols.entries = emitter.symbols.entries := by
  have asked : outcome (get : Emit Emitter) emitter = (.ok emitter, emitter) := rfl
  unfold variableCode at done
  rw [outcome_bind_ok asked] at done
  cases typed : emitter.symbols.type name with
  | list =>
    rw [typed] at done
    dsimp only at done
    rw [outcome_listCode,Prod.mk.injEq,Except.ok.injEq] at done
    obtain ⟨rfl,rfl⟩ := done
    refine ⟨fun later _ same => ?_, (listName_extends _ name).grows, rfl⟩
    have stays : later.type name = .list := (type_of_entries same name).trans typed
    obtain ⟨ends,long⟩ := listName_traits emitter.symbols name
    exact Ends.of_long (iff_of_true ends stays) long (by simp [Symbols.isLetter,stays])
  | text =>
    rw [typed] at done
    exact endsFrom_textCode typed done
  | number =>
    rw [typed] at done
    exact endsFrom_scalarCode (.inl typed) done
  | boolean =>
    rw [typed] at done
    exact endsFrom_scalarCode (.inr typed) done

/-! ### Products -/

theorem not_endsInName_number (value : Float) : ¬EndsInName (Number.code value).toList := by
  obtain ⟨magnitude,-,chars,code⟩ := Number.code_shape value
  have unmarked : listMark ∉ magnitude.toList := fun member => by
    rcases chars listMark member with digit | other
    · cases digit
    · exact absurd other (by decide)
  apply not_endsInName
  rw [code,String.toList_append,mem_append]
  split
  · simpa [listMark] using unmarked
  · simpa using unmarked

/-- The code of a product ends as its last factor that is no letter. -/
theorem endsFrom_product {middle after : Symbols} {a b : String} (first : EndsFrom middle left a)
    (second : EndsFrom after right b) (still : right.kind = .var → Grows middle after ∧ after.entries = middle.entries) :
    EndsFrom after (.arith left .mul right) (product left right a b) := by
  intro later grown same
  have last := second later grown same
  refine ⟨?_, rfl, fun letter => nomatch letter⟩
  rw [Tree.endsInList,Bool.or_eq_true,Bool.and_eq_true,product]
  cases isLast : isLetter right b with
  | true =>
    have isLetter : right.isLetter later = true := last.letter ▸ isLast
    obtain ⟨c,member,single⟩ := last.single isLetter
    have traits := letter_traits c member
    have isVar : right.kind = .var := by
      rw [Emit.isLetter,Bool.and_eq_true,decide_eq_true_eq] at isLast
      exact isLast.1
    have noList : ¬right.endsInList later = true := by
      rw [← last.name,single]
      exact not_endsInName (by simpa using traits.2.2.symm)
    obtain ⟨more,typed⟩ := still isVar
    have front := first later (more.trans grown) (same.trans typed)
    rw [Bool.or_true,if_pos rfl,Tree.isLiteral,isVar,if_neg (by decide),String.toList_append,single,
      endsInName_concat traits.1,front.name]
    exact ⟨fun ends => .inr ⟨isLetter, ends⟩, fun ends => (ends.resolve_left noList).2⟩
  | false =>
    have noLetter : ¬(right.isLetter later = true ∧ left.endsInList later = true) := by
      rw [← last.letter,isLast]
      exact fun both => Bool.false_ne_true both.1
    rw [or_iff_left noLetter,← last.name,Bool.or_false]
    split
    · rename_i isFirst
      have front := first middle (.refl middle) rfl
      obtain ⟨c,member,single⟩ := front.single (front.letter ▸ isFirst)
      have traits := letter_traits c member
      split
      · rw [String.toList_append,single,endsInName_concat traits.1]
      · rw [String.toList_append,single,singleton_append,endsInName_cons traits.2.2]
    · rw [String.toList_append,String.toList_append,append_assoc]
      exact endsInName_append_cons (by decide) (by decide) _ _

theorem outcome_product {render : Renderer} (done : outcome (arithmetic render left .mul right) emitter = (.ok text, after)) :
    ∃ a b middle, outcome (operand render (.arith .mul) false left) emitter = (.ok a, middle) ∧
      outcome (operand render (.arith .mul) true right) middle = (.ok b, after) ∧ text = product left right a b := by
  have plain : arithmetic render left .mul right = do
      let a ← operand render (.arith .mul) false left
      let b ← operand render (.arith .mul) true right
      return product left right a b := rfl
  rw [plain] at done
  obtain ⟨a,middle,first,done⟩ := outcome_bind_eq_ok done
  obtain ⟨b,_,second,done⟩ := outcome_bind_eq_ok done
  cases done
  exact ⟨a, b, middle, first, second, rfl⟩

/-- Of all factors only numbers are put in parentheses. -/
theorem number_of_isWrapped (factor : tree.isFactor = true) {modern right : Bool}
    (wrapped : tree.isWrapped modern (.arith .mul) right = true) : ∃ value, tree = .number value := by
  cases tree with
  | number value => exact ⟨value, rfl⟩
  | arith left op right =>
    cases op with
    | mul => simp [Tree.isWrapped,Tree.strength,Operator.strength,Arith.isAssociative] at wrapped
    | _ => cases factor
  | var | listVar | element => cases wrapped
  | _ => cases factor

/-- The code ends as the factor does, and a variable leaves types and homes alone. -/
def EndsAs (tree : Tree) (action : Emit String) : Prop :=
  ∀ emitter text after, outcome action emitter = (.ok text, after) → EndsFrom after.symbols tree text ∧
    (tree.kind = .var → Grows emitter.symbols after.symbols ∧ after.symbols.entries = emitter.symbols.entries)

theorem endsAs_of_plain (noList : ∀ symbols, tree.endsInList symbols = false) (notVar : tree.kind ≠ .var) {action : Emit String}
    (plain : Returns (fun _ => True) action fun text => ¬EndsInName text.toList) : EndsAs tree action :=
  fun emitter text after done => ⟨fun later _ _ => .of_plain (plain emitter text after trivial done).1 (noList later) notVar,
    fun isVar => absurd isVar notVar⟩

theorem ends_literal (depth : Nat) {value : Constant} {code : String} (written : value.code? = some code) :
    Returns (fun _ => True) (render depth true value.tree) fun text => ¬EndsInName text.toList := by
  cases depth with
  | zero => exact returns_throw _
  | succ depth =>
    cases value with
    | number value => exact returns_pure (not_endsInName_number value)
    | boolean value => exact returns_pure (not_endsInName (by cases value <;> simp [listMark]))
    | text | list => cases written

theorem endsAs_operand {depth : Nat} (factor : tree.isFactor = true) (rendered : EndsAs tree (render depth true tree))
    (right : Bool) :
    EndsAs tree (operand (render depth) (.arith .mul) right tree) := by
  have wrap {settled : Tree} {code : String} (modern : Bool) (plain : ¬EndsInName code.toList) :
      ¬EndsInName (if settled.isWrapped modern (.arith .mul) right then "(" ++ code ++ ")" else code).toList := by
    split
    · exact not_endsInName_closed _
    · exact plain
  cases plain : tree.isOperation && tree.isSimple with
  | true =>
    have simple : tree.isSimple = true := ((Bool.and_eq_true _ _).mp plain).2
    have noList (symbols : Symbols) := Tree.endsInList_of_isSimple symbols simple
    have notVar : tree.kind ≠ .var := by
      intro isVar
      cases tree with
      | var => cases simple
      | _ => cases isVar
    refine endsAs_of_plain noList notVar ?_
    refine returns_bind (returns_settle_cases (render depth) tree) fun settled result => ?_
    have coded : Returns (fun _ => True) (render depth true settled) fun text => ¬EndsInName text.toList := by
      rcases result with rfl | ⟨_,_,value,literal,_,written,rfl⟩
      · intro emitter text after _ done
        refine ⟨fun ends => ?_, trivial⟩
        have named := ((rendered emitter text after done).1 after.symbols (.refl _) rfl).name.mp ends
        rw [noList] at named
        cases named
      · exact ends_literal depth written
    refine returns_bind coded fun code apart => ?_
    exact returns_bind returns_get fun emitter _ => returns_pure (wrap emitter.modern apart)
  | false =>
    intro emitter text after done
    rw [operand,settle_of_plain plain,pure_bind] at done
    obtain ⟨code,_,coded,done⟩ := outcome_bind_eq_ok done
    cases done
    obtain ⟨ends,still⟩ := rendered emitter code after coded
    split
    · rename_i wrapped
      obtain ⟨value,rfl⟩ := number_of_isWrapped factor wrapped
      exact ⟨fun later _ _ => .of_plain (not_endsInName_closed _) rfl (by simp), still⟩
    · exact ⟨ends, still⟩

theorem endsAs_render (depth : Nat) (factor : tree.isFactor = true) : EndsAs tree (render depth true tree) := by
  induction depth generalizing tree with
  | zero => exact fun emitter text after done => nomatch done
  | succ depth lower =>
    cases tree with
    | number value => exact endsAs_of_plain (fun _ => rfl) (by simp) (returns_pure (not_endsInName_number value))
    | var name => exact fun emitter text after done => (endsFrom_variableCode done).imp_right fun still _ => still
    | listVar name =>
      intro emitter text after done
      cases done
      exact ⟨endsFrom_listVar emitter.symbols name _, fun isVar => by cases isVar⟩
    | element base index =>
      refine endsAs_of_plain (fun _ => rfl) (by simp) ?_
      intro emitter text after _ done
      obtain ⟨list,middle,_,done⟩ := outcome_bind_eq_ok done
      obtain ⟨place,last,_,done⟩ := outcome_bind_eq_ok done
      cases done
      exact ⟨not_endsInName_closed _, trivial⟩
    | arith left op right =>
      cases op with
      | mul =>
        obtain ⟨factorLeft,factorRight⟩ := (Bool.and_eq_true _ _).mp factor
        intro emitter text after done
        obtain ⟨a,b,middle,first,second,rfl⟩ := outcome_product done
        obtain ⟨endsLeft,-⟩ := endsAs_operand factorLeft (lower factorLeft) false emitter a middle first
        obtain ⟨endsRight,still⟩ := endsAs_operand factorRight (lower factorRight) true middle b after second
        exact ⟨endsFrom_product endsLeft endsRight still, fun isVar => by cases isVar⟩
      | _ => cases factor
    | _ => cases factor

/-- The tokens of a text are those of one part, perhaps a sign of multiplication, and those
of the other part. -/
def Splits (text a b : String) : Prop :=
  ∃ star ∈ [[], [['*']]], tokens text.toList = tokens a.toList ++ star ++ tokens b.toList ∨
    tokens text.toList = tokens b.toList ++ star ++ tokens a.toList

theorem tokens_letter {c : Char} (member : c ∈ alphabet) : tokens [c] = [[c]] := by
  have traits := letter_traits c member
  rw [tokens_single traits.2.1 traits.2.2,tokens]

theorem splits_product_iff {middle after : Symbols} {a b : String} (first : EndsFrom middle left a)
    (second : EndsFrom after right b) (still : right.kind = .var → Grows middle after ∧ after.entries = middle.entries) :
    Splits (product left right a b) a b ↔ ¬(right.isLetter after = true ∧ left.endsInList after = true) := by
  have last := second after (.refl after) rfl
  rw [product,← last.letter]
  cases isLast : isLetter right b with
  | true =>
    obtain ⟨c,member,single⟩ := last.single (last.letter ▸ isLast)
    have traits := letter_traits c member
    have isVar : right.kind = .var := by
      rw [isLetter,Bool.and_eq_true,decide_eq_true_eq] at isLast
      exact isLast.1
    obtain ⟨more,typed⟩ := still isVar
    have front := first after more typed
    rw [Bool.or_true,if_pos rfl,Tree.isLiteral,isVar,if_neg (by decide),Splits,String.toList_append,single,
      tokens_letter member,and_iff_right rfl,← front.name]
    constructor
    · -- there is one token less than the parts have
      rintro ⟨star,_,split⟩ ends
      have count := length_tokens_of_endsInName ends traits.1
      rcases split with split | split
      all_goals
        rw [split] at count
        simp only [length_append,length_singleton] at count
        omega
    · intro apart
      refine ⟨[], by simp, .inl ?_⟩
      rw [tokens_concat apart traits.2.1 traits.2.2,append_nil]
  | false =>
    refine iff_of_true ?_ (fun both => Bool.false_ne_true both.1)
    rw [Bool.or_false]
    split
    · rename_i isFirst
      have front := first middle (.refl middle) rfl
      obtain ⟨c,member,single⟩ := front.single (front.letter ▸ isFirst)
      have traits := letter_traits c member
      refine ⟨[], by simp, ?_⟩
      rw [single,tokens_letter member]
      split
      · rename_i literal
        have apart : ¬EndsInName b.toList := by
          rw [last.name]
          cases right <;> first | exact Bool.false_ne_true | cases literal
        rw [String.toList_append,single,tokens_concat apart traits.2.1 traits.2.2]
        exact .inr (by rw [append_nil])
      · rw [String.toList_append,single,singleton_append,tokens_single traits.2.1 traits.2.2]
        exact .inl rfl
    · refine ⟨[['*']], by simp, .inl ?_⟩
      have star : "*".toList = ['*'] := by simp
      rw [String.toList_append,String.toList_append,star,append_assoc,singleton_append,
        tokens_append_cons (by decide) (by decide),tokens_single (by decide) (by decide),append_assoc]
      rfl

/-- The code of a product splits into the tokens of its factors, in any state and at any
depth, unless a letter comes after a factor that ends in a list. -/
theorem product_splits_iff (depth : Nat) (left right : Tree) (factorLeft : left.isFactor = true)
    (factorRight : right.isFactor = true) (emitter after : Emitter) (text : String)
    (done : outcome (arithmetic (render depth) left .mul right) emitter = (.ok text, after)) :
    ∃ a b middle, outcome (operand (render depth) (.arith .mul) false left) emitter = (.ok a, middle) ∧
      outcome (operand (render depth) (.arith .mul) true right) middle = (.ok b, after) ∧
      (Splits text a b ↔ ¬(right.isLetter after.symbols = true ∧ left.endsInList after.symbols = true)) := by
  obtain ⟨a,b,middle,first,second,rfl⟩ := outcome_product done
  obtain ⟨endsLeft,-⟩ := endsAs_operand factorLeft (endsAs_render depth factorLeft) false emitter a middle first
  obtain ⟨endsRight,still⟩ := endsAs_operand factorRight (endsAs_render depth factorRight) true middle b after second
  exact ⟨a, b, middle, first, second, splits_product_iff endsLeft endsRight still⟩

theorem product_splits_letters :
    let emitter : Emitter := { symbols := {}, modern := true, folding := true, program := "TIADV" }
    let left : Tree := .arith (.number 2) .mul (.var "x")
    (outcome (arithmetic (render 2) left .mul (.var "y")) emitter).1 = .ok "2AB" ∧
      ∃ a b middle after, outcome (operand (render 2) (.arith .mul) false left) emitter = (.ok a, middle) ∧
        outcome (operand (render 2) (.arith .mul) true (.var "y")) middle = (.ok b, after) ∧ Splits "2AB" a b := by
  intro emitter left
  have done : (outcome (arithmetic (render 2) left .mul (.var "y")) emitter).1 = .ok "2AB" := by decide +kernel
  obtain ⟨a,b,middle,first,second,splits⟩ := product_splits_iff 2 left (.var "y") rfl rfl emitter _ "2AB" (outcome_eq_ok done)
  exact ⟨done, a, b, middle, _, first, second, splits.mpr (by decide +kernel)⟩

/-- The name of a list before a letter takes the letter in. -/
theorem product_merges_list :
    let emitter : Emitter := { symbols := {}, modern := true, folding := true, program := "TIADV" }
    (outcome (arithmetic (render 1) (.listVar "l") .mul (.var "a")) emitter).1 = .ok "∟ARR1A" ∧
      (outcome (operand (render 1) (.arith .mul) false (.listVar "l")) emitter).1 = .ok "∟ARR1" ∧
      (outcome (operand (render 1) (.arith .mul) true (.var "a")) emitter).1 = .ok "A" ∧
      (tokens "∟ARR1A".toList).length = 1 ∧ ¬Splits "∟ARR1A" "∟ARR1" "A" := by
  intro emitter
  refine ⟨by decide +kernel, by decide +kernel, by decide +kernel, by decide +kernel, ?_⟩
  unfold Splits
  decide +kernel

end Emit
end CalcBasic
