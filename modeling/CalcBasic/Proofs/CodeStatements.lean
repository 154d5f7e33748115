import CalcBasic.Proofs.CodeLines
import CalcBasic.Proofs.OperandTree

/-! Statements of calculator code, and the blocks that loops, branches and their ends
form. Code that is spliced into a statement must not complete a keyword there, whatever
stands before it. -/
namespace CalcBasic.Code
open List

variable {keyword rest statement tail : List Char} {others found : List Mark} {code more test : String} {codes : List String}
  {c : Char} {inText : Bool}

/-! ### Statements -/

/-- Whether text is open after one more character. -/
def inTextAfter (inText : Bool) (c : Char) : Bool :=
  if c = '\n' || c = '→' then false else if c = '"' then !inText else inText

def openAfter (inText : Bool) (code : List Char) : Bool := code.foldl inTextAfter inText

/-- A statement ends with its line, or at a colon outside text. -/
def endsStatement (inText : Bool) (c : Char) : Bool := c = '\n' || (c = ':' && !inText)

/-- The statements of code. -/
def statements (inText : Bool) : List Char → List (List Char)
  | [] => [[]]
  | c :: rest =>
    if endsStatement inText c then [] :: statements (inTextAfter inText c) rest
    else (statements (inTextAfter inText c) rest).modifyHead (c :: ·)

theorem openAfter_append (inText : Bool) (code more : List Char) :
    openAfter inText (code ++ more) = openAfter (openAfter inText code) more :=
  List.foldl_append

/-- More code goes on with the last statement. -/
theorem statements_append (inText : Bool) (code : List Char) : ∃ earlier last,
    statements inText code = earlier ++ [last] ∧ ∀ more, statements inText (code ++ more) =
      earlier ++ (statements (openAfter inText code) more).modifyHead (last ++ ·) := by
  induction code generalizing inText with
  | nil => exact ⟨[], [], rfl, fun more => (congrFun List.modifyHead_id _).symm⟩
  | cons c rest ih =>
    obtain ⟨earlier,last,whole,joined⟩ := ih (inTextAfter inText c)
    simp only [List.cons_append,statements]
    split
    · exact ⟨[] :: earlier, last, by rw [whole]; rfl, fun more => by rw [joined]; rfl⟩
    · rw [whole]
      cases earlier with
      | nil =>
        refine ⟨[], c :: last, rfl, fun more => ?_⟩
        rw [joined,List.nil_append,List.modifyHead_modifyHead]
        rfl
      | cons first others => exact ⟨(c :: first) :: others, last, rfl, fun more => by rw [joined]; rfl⟩

theorem statements_break (inText : Bool) (code more : List Char) :
    statements inText (code ++ '\n' :: more) = statements inText code ++ statements false more := by
  obtain ⟨earlier,last,whole,joined⟩ := statements_append inText code
  have ends : statements (openAfter inText code) ('\n' :: more) = [] :: statements false more := rfl
  rw [joined,whole,ends]
  simp

theorem statements_colon {code : List Char} (closed : openAfter false code = false) (more : List Char) :
    statements false (code ++ ':' :: more) = statements false code ++ statements false more := by
  obtain ⟨earlier,last,whole,joined⟩ := statements_append false code
  have ends : statements false (':' :: more) = [] :: statements false more := rfl
  rw [joined,whole,closed,ends]
  simp

theorem statements_of_inside {code : List Char}
    (inside : ∀ c ∈ code, c ≠ '\n' ∧ c ≠ ':') : statements inText code = [code] := by
  induction code generalizing inText with
  | nil => rfl
  | cons c rest ih =>
    obtain ⟨noBreak,noColon⟩ := inside c (by simp)
    have goesOn : endsStatement inText c = false := by simp [endsStatement,noBreak,noColon]
    rw [statements,goesOn,ih fun other member => inside other (by simp [member])]
    rfl

/-! ### Blocks -/

/-- What a statement does to the blocks around it. -/
inductive Mark where
  | loop | branch | alternative | close
  deriving DecidableEq, Repr

def loopHeads : List (List Char) := ["For(".toList, "While ".toList, "Repeat ".toList]

def mark? (statement : List Char) : Option Mark :=
  if loopHeads.any (·.isPrefixOf statement) then some .loop
  else if statement = "Then".toList then some .branch
  else if statement = "Else".toList then some .alternative
  else if statement = "End".toList then some .close
  else none

/-- The statements that open, divide and close blocks. -/
def marks (code : String) : List Mark := (statements false code.toList).filterMap mark?

/-- Every loop and every branch is closed, and a branch has at most one alternative. -/
inductive Balanced : List Mark → Prop
  | nil : Balanced []
  | loop {body rest : List Mark} (inner : Balanced body) (later : Balanced rest) :
      Balanced (.loop :: (body ++ .close :: rest))
  | branch {body rest : List Mark} (inner : Balanced body) (later : Balanced rest) :
      Balanced (.branch :: (body ++ .close :: rest))
  | choice {body other rest : List Mark} (inner : Balanced body) (second : Balanced other) (later : Balanced rest) :
      Balanced (.branch :: (body ++ .alternative :: (other ++ .close :: rest)))

theorem Balanced.append {first second : List Mark} (start : Balanced first) (later : Balanced second) :
    Balanced (first ++ second) := by
  induction start with
  | nil => exact later
  | loop inner _ _ ih =>
    rw [List.cons_append,List.append_assoc,List.cons_append]
    exact .loop inner ih
  | branch inner _ _ ih =>
    rw [List.cons_append,List.append_assoc,List.cons_append]
    exact .branch inner ih
  | choice inner other _ _ _ ih =>
    rw [List.cons_append,List.append_assoc,List.cons_append,List.append_assoc,List.cons_append]
    exact .choice inner other ih

theorem Balanced.flatten {all : List (List Mark)} (each : ∀ found ∈ all, Balanced found) : Balanced all.flatten := by
  induction all with
  | nil => exact .nil
  | cons first rest ih =>
    rw [List.flatten_cons]
    exact (each first (by simp)).append (ih fun found member => each found (by simp [member]))

theorem marks_break (code more : String) : marks (code ++ "\n" ++ more) = marks code ++ marks more := by
  have chars : (code ++ "\n" ++ more).toList = code.toList ++ '\n' :: more.toList := by simp
  rw [marks,chars,statements_break,List.filterMap_append]
  rfl

@[simp]
theorem marks_empty : marks "" = [] := rfl

theorem marks_intercalate (pieces : List String) : marks ("\n".intercalate pieces) = pieces.flatMap marks := by
  induction pieces with
  | nil => rfl
  | cons piece rest ih =>
    cases rest with
    | nil => simp
    | cons second later =>
      rw [String.intercalate_cons_cons,marks_break,ih]
      rfl

theorem intercalate_splitOn (code : String) :
    "\n".intercalate ((code.toList.splitOn '\n').map String.ofList) = code := by
  rw [← String.toList_inj,String.toList_intercalate]
  simp [List.intercalate_splitOn]

theorem marks_eq (code : String) : marks code = (lines code).flatMap marks := by
  have dropped (pieces : List (List Char)) :
      (pieces.map String.ofList).flatMap marks = ((pieces.filter (!·.isEmpty)).map String.ofList).flatMap marks := by
    induction pieces with
    | nil => rfl
    | cons piece rest ih => cases piece <;> simp [ih]
  calc marks code = marks ("\n".intercalate ((code.toList.splitOn '\n').map String.ofList)) := by rw [intercalate_splitOn]
    _ = ((code.toList.splitOn '\n').map String.ofList).flatMap marks := marks_intercalate _
    _ = (lines code).flatMap marks := by rw [dropped,← lines_eq]

theorem countFrom_break (inText pending : Bool) (code more : List Char) :
    countFrom inText pending (code ++ '\n' :: more) = countFrom inText pending code + countFrom false false more := by
  induction code generalizing inText pending with
  | nil => simp [countFrom]
  | cons c rest ih =>
    rw [List.cons_append,countFrom,countFrom]
    split
    · rw [ih,Nat.add_assoc]
    · exact ih _ _

theorem countStatements_intercalate (pieces : List String) :
    countStatements ("\n".intercalate pieces) = (pieces.map countStatements).sum := by
  induction pieces with
  | nil => rfl
  | cons piece rest ih =>
    cases rest with
    | nil => simp
    | cons second others =>
      rw [String.intercalate_cons_cons,List.map_cons,List.sum_cons,← ih]
      simp only [countStatements,String.toList_append]
      rw [List.append_assoc]
      exact countFrom_break false false _ _

theorem countStatements_eq (code : String) : countStatements code = ((lines code).map countStatements).sum := by
  have dropped (pieces : List (List Char)) : ((pieces.map String.ofList).map countStatements).sum =
      (((pieces.filter (!·.isEmpty)).map String.ofList).map countStatements).sum := by
    induction pieces with
    | nil => rfl
    | cons piece rest ih =>
      cases piece with
      | nil => simpa [countStatements,countFrom] using ih
      | cons c others => simpa using ih
  calc countStatements code = countStatements ("\n".intercalate ((code.toList.splitOn '\n').map String.ofList)) := by
        rw [intercalate_splitOn]
    _ = (((code.toList.splitOn '\n').map String.ofList).map countStatements).sum := countStatements_intercalate _
    _ = ((lines code).map countStatements).sum := by rw [dropped,← lines_eq]

theorem marks_trimBreaks (code : String) : marks (trimBreaks code) = marks code := by
  rw [marks_eq,lines_trimBreaks,← marks_eq]

/-! ### Spliced code -/

def testHead : List Char := "If ".toList

def keywords : List (List Char) := loopHeads ++ ["Then".toList, "Else".toList, "End".toList, testHead]

/-- No keyword can begin the statement any more. -/
def isDead (statement : List Char) : Bool :=
  keywords.all fun keyword => !keyword.isPrefixOf statement && !statement.isPrefixOf keyword

/-- A statement so far, if expressions are all that it consists of. -/
def isStart (statement : List Char) : Bool :=
  statement.isEmpty || alphabet.any (fun letter => statement == [letter]) || isDead statement

theorem isDead_iff : isDead statement = true ↔
    ∀ keyword ∈ keywords, ¬ keyword <+: statement ∧ ¬ statement <+: keyword := by
  simp only [isDead,List.all_eq_true,Bool.and_eq_true,Bool.not_eq_true',Bool.eq_false_iff,ne_eq,List.isPrefixOf_iff_prefix]

theorem isStart_iff : isStart statement = true ↔
    statement = [] ∨ (∃ letter ∈ alphabet, statement = [letter]) ∨ isDead statement = true := by
  simp only [isStart,Bool.or_eq_true,List.isEmpty_iff,List.any_eq_true,beq_iff_eq,or_assoc]

theorem isDead_append (dead : isDead statement = true) (more : List Char) : isDead (statement ++ more) = true := by
  refine isDead_iff.mpr fun keyword member => ?_
  obtain ⟨noKeyword,noBeginning⟩ := isDead_iff.mp dead keyword member
  constructor
  · intro begins
    rcases List.prefix_or_prefix_of_prefix begins (List.prefix_append statement more) with short | long
    · exact noKeyword short
    · exact noBeginning long
  · intro begins
    exact noBeginning ((List.prefix_append statement more).trans begins)

theorem isStart_of_isDead (dead : isDead statement = true) : isStart statement = true :=
  isStart_iff.mpr (.inr (.inr dead))

/-- No keyword begins a statement of expressions. -/
theorem not_prefix_of_isStart (start : isStart statement = true) (member : keyword ∈ keywords) : ¬ keyword <+: statement := by
  have long : ∀ keyword ∈ keywords, 1 < keyword.length := by decide
  intro begins
  have longer := begins.length_le
  have least := long keyword member
  rcases isStart_iff.mp start with rfl | ⟨letter,_,rfl⟩ | dead
  · simp only [List.length_nil] at longer
    omega
  · simp only [List.length_singleton] at longer
    omega
  · exact (isDead_iff.mp dead keyword member).1 begins

theorem mark?_eq_none (unmarked : ∀ keyword ∈ keywords, ¬ keyword <+: statement) : mark? statement = none := by
  have apart {keyword : List Char} (member : keyword ∈ keywords) : statement ≠ keyword := by
    rintro rfl
    exact unmarked statement member (List.prefix_refl statement)
  have noHead : loopHeads.any (·.isPrefixOf statement) = false := by
    rw [List.any_eq_false]
    intro head member begins
    exact unmarked head (List.mem_append_left _ member) (List.isPrefixOf_iff_prefix.mp begins)
  have noBranch := apart (show "Then".toList ∈ keywords by decide)
  have noAlternative := apart (show "Else".toList ∈ keywords by decide)
  have noEnd := apart (show "End".toList ∈ keywords by decide)
  simp only [mark?,noHead,noBranch,noAlternative,noEnd,Bool.false_eq_true,if_false]

/-- Code that can be spliced into any statement of expressions. -/
def Calm (code : List Char) : Prop := ∀ lead, isStart lead = true → isStart (lead ++ code) = true

theorem calm_nil : Calm [] := by
  intro lead start
  rwa [List.append_nil]

theorem Calm.append {code more : List Char} (first : Calm code) (second : Calm more) : Calm (code ++ more) := by
  intro lead start
  rw [← List.append_assoc]
  exact second _ (first lead start)

theorem Calm.isStart {code : List Char} (calm : Calm code) : isStart code = true := calm [] rfl

/-- Not the second character of a keyword. -/
def isLater (c : Char) : Bool := !"ohelnf".toList.contains c

/-- Neither the first nor the second character of a keyword. -/
def isSafe (c : Char) : Bool := !"FWRTEI".toList.contains c && isLater c

theorem keyword_shape : ∀ keyword ∈ keywords, ∃ first second more, keyword = first :: second :: more ∧
    isSafe first = false ∧ isLater second = false := by
  simp only [keywords,loopHeads,List.cons_append,List.nil_append,List.forall_mem_cons]
  refine ⟨?_, ?_, ?_, ?_, ?_, ?_, ?_, nofun⟩ <;> exact ⟨_, _, _, rfl, by decide, by decide⟩

theorem isDead_of_isSafe (safe : isSafe c = true) (rest : List Char) : isDead (c :: rest) = true := by
  refine isDead_iff.mpr fun keyword member => ?_
  obtain ⟨first,second,more,rfl,isFirst,_⟩ := keyword_shape keyword member
  have apart : c ≠ first := by
    rintro rfl
    rw [safe] at isFirst
    cases isFirst
  rw [List.cons_prefix_cons,List.cons_prefix_cons]
  exact ⟨fun begins => apart begins.1.symm, fun begins => apart begins.1⟩

theorem isDead_of_isLater (later : isLater c = true) (letter : Char) (rest : List Char) :
    isDead (letter :: c :: rest) = true := by
  refine isDead_iff.mpr fun keyword member => ?_
  obtain ⟨first,second,more,rfl,_,isSecond⟩ := keyword_shape keyword member
  have apart : c ≠ second := by
    rintro rfl
    rw [later] at isSecond
    cases isSecond
  simp only [List.cons_prefix_cons]
  exact ⟨fun begins => apart begins.2.1.symm, fun begins => apart begins.2.1⟩

theorem calm_cons (start : isStart (c :: rest) = true) (later : isLater c = true) : Calm (c :: rest) := by
  intro lead known
  rcases isStart_iff.mp known with rfl | ⟨letter,_,rfl⟩ | dead
  · exact start
  · exact isStart_of_isDead (isDead_of_isLater later letter rest)
  · exact isStart_of_isDead (isDead_append dead _)

theorem calm_of_isSafe (safe : isSafe c = true) (rest : List Char) : Calm (c :: rest) :=
  calm_cons (isStart_of_isDead (isDead_of_isSafe safe rest)) (Bool.and_eq_true_iff.mp safe).2

theorem calm_letter {letter : Char} (isLetter : letter ∈ alphabet) : Calm [letter] := by
  have letters : ∀ letter ∈ alphabet, isLater letter = true := by decide
  exact calm_cons (isStart_iff.mpr (.inr (.inl ⟨letter, isLetter, rfl⟩))) (letters letter isLetter)

def isCalm (code : List Char) : Bool :=
  code.head?.all isSafe || ([] :: alphabet.map ([·])).all fun lead => isStart (lead ++ code)

theorem calm_of_isCalm {code : List Char} (calm : isCalm code = true) : Calm code := by
  rcases Bool.or_eq_true_iff.mp calm with safe | checked
  · cases code with
    | nil => exact calm_nil
    | cons c rest => exact calm_of_isSafe safe rest
  · rw [List.all_eq_true] at checked
    intro lead start
    rcases isStart_iff.mp start with rfl | ⟨letter,isLetter,rfl⟩ | dead
    · exact checked [] (by simp)
    · exact checked [letter] (List.mem_cons_of_mem _ (List.mem_map.mpr ⟨letter, isLetter, rfl⟩))
    · exact isStart_of_isDead (isDead_append dead code)

theorem prefix_of_not_mem {code : List Char} (absent : c ∉ keyword)
    (begins : keyword <+: code ++ c :: rest) : keyword <+: code := by
  rcases List.prefix_or_prefix_of_prefix begins (List.prefix_append code _) with short | ⟨more,rfl⟩
  · exact short
  · rw [List.prefix_append_right_inj] at begins
    cases more with
    | nil => simp
    | cons d more =>
      obtain ⟨rfl,_⟩ := List.cons_prefix_cons.mp begins
      exact absurd (by simp) absent

/-- Before a store, what is left out at the end of a statement completes no keyword. -/
theorem calm_of_store {code : List Char} (calm : Calm (code ++ tail)) (more : List Char) : Calm (code ++ '→' :: more) := by
  have stored : ∀ keyword ∈ keywords, '→' ∉ keyword := by decide
  intro lead start
  have whole := calm lead start
  refine isStart_of_isDead (isDead_iff.mpr fun keyword member => ?_)
  rw [← List.append_assoc]
  rw [← List.append_assoc] at whole
  constructor
  · intro begins
    have short := prefix_of_not_mem (stored keyword member) begins
    exact not_prefix_of_isStart whole member (short.trans (List.prefix_append _ _))
  · intro begins
    exact stored keyword member (begins.subset (by simp))

/-! ### Expressions -/

/-- Code of expressions: it can be spliced into any statement of expressions, and leaves
it with all texts closed. If it is not made of returns, it ends otherwise than they do. -/
structure Inert (returnless : Prop) (code : String) : Prop where
  unbroken : '\n' ∉ code.toList
  closed : openAfter false code.toList = false
  calm : ∀ statement ∈ statements false code.toList, Calm statement
  ends : returnless → code.toList.getLast? ≠ some 'n'

section Expressions

variable {returnless : Prop}

theorem Inert.append (first : Inert returnless code) (second : Inert returnless more) : Inert returnless (code ++ more) := by
  obtain ⟨earlier,last,whole,joined⟩ := statements_append false code.toList
  refine ⟨?_, ?_, ?_, ?_⟩
  · rw [String.toList_append,List.mem_append]
    rintro (early | late)
    · exact first.unbroken early
    · exact second.unbroken late
  · rw [String.toList_append,openAfter_append,first.closed,second.closed]
  · intro statement member
    rw [String.toList_append,joined,first.closed] at member
    have calmFirst := first.calm
    have calmSecond := second.calm
    rw [whole] at calmFirst
    generalize statements false more.toList = others at member calmSecond
    rcases List.mem_append.mp member with early | late
    · exact calmFirst statement (List.mem_append_left _ early)
    · cases others with
      | nil => cases late
      | cons next others =>
        rw [List.modifyHead_cons] at late
        rcases List.mem_cons.mp late with rfl | later
        · exact (calmFirst last (by simp)).append (calmSecond next (by simp))
        · exact calmSecond statement (by simp [later])
  · intro none
    rw [String.toList_append,List.getLast?_append]
    cases found : more.toList.getLast? with
    | none => exact first.ends none
    | some c =>
      have ends := second.ends none
      rwa [found] at ends

theorem Inert.weaken (inert : Inert returnless code) : Inert False code :=
  ⟨inert.unbroken, inert.closed, inert.calm, nofun⟩

theorem Inert.before (first : Inert False code) (second : Inert returnless more) (nonempty : more ≠ "") :
    Inert returnless (code ++ more) := by
  have whole := first.append second.weaken
  refine ⟨whole.unbroken, whole.closed, whole.calm, fun none => ?_⟩
  have ends := second.ends none
  have chars : more.toList ≠ [] := by simpa using nonempty
  rwa [String.toList_append,List.getLast?_append_of_ne_nil _ chars]

theorem inert_empty : Inert returnless "" := by
  refine ⟨by simp, rfl, fun statement member => ?_, nofun⟩
  rw [List.mem_singleton.mp member]
  exact calm_nil

theorem inert_intercalate {separator : String} (between : Inert returnless separator)
    (each : ∀ code ∈ codes, Inert returnless code) : Inert returnless (separator.intercalate codes) := by
  induction codes with
  | nil => exact inert_empty
  | cons code rest ih =>
    have first := each code (by simp)
    have others := ih fun other member => each other (by simp [member])
    cases rest with
    | nil =>
      rw [String.intercalate_singleton]
      exact first
    | cons second later =>
      rw [String.intercalate_cons_cons]
      exact (first.append between).append others

def isInert (code : String) : Bool :=
  !code.toList.contains '\n' && !openAfter false code.toList && (statements false code.toList).all isCalm &&
    code.toList.getLast? != some 'n'

theorem inert_of_isInert (inert : isInert code = true) : Inert returnless code := by
  simp only [isInert,Bool.and_eq_true,Bool.not_eq_true',List.all_eq_true] at inert
  obtain ⟨⟨⟨unbroken,closed⟩,calm⟩,ends⟩ := inert
  refine ⟨by simpa using unbroken, closed, fun statement member => calm_of_isCalm (calm statement member), fun _ => ?_⟩
  exact bne_iff_ne.mp ends

theorem openAfter_of_plain {code : List Char}
    (plain : ∀ c ∈ code, c ≠ '\n' ∧ c ≠ '→' ∧ c ≠ '"') : openAfter inText code = inText := by
  induction code with
  | nil => rfl
  | cons c rest ih =>
    obtain ⟨noBreak,noStore,noQuote⟩ := plain c (by simp)
    have same : inTextAfter inText c = inText := by simp [inTextAfter,noBreak,noStore,noQuote]
    rw [openAfter,foldl_cons,same]
    exact ih fun other member => plain other (by simp [member])

theorem inert_of_isPlain (plain : ∀ c ∈ code.toList, isPlain c = true) (calm : Calm code.toList)
    (ends : returnless → code.toList.getLast? ≠ some 'n') : Inert returnless code := by
  simp only [isPlain,Bool.and_eq_true,bne_iff_ne] at plain
  have one : statements false code.toList = [code.toList] :=
    statements_of_inside fun c member => ⟨(plain c member).1.1.1, (plain c member).1.2⟩
  refine ⟨fun broken => (plain _ broken).1.1.1 rfl, ?_, ?_, ends⟩
  · exact openAfter_of_plain fun c member => ⟨(plain c member).1.1.1, (plain c member).1.1.2, (plain c member).2⟩
  · intro statement member
    rw [one] at member
    rw [mem_singleton.mp member]
    exact calm

/-- A name or a numeral. -/
structure IsWord (code : String) : Prop where
  letters : ∀ c ∈ code.toList, isPlain c = true ∧ c ≠ 'n'
  calm : Calm code.toList

theorem IsWord.inert (word : IsWord code) : Inert returnless code :=
  inert_of_isPlain (fun c member => (word.letters c member).1) word.calm
    fun _ last => (word.letters 'n' (mem_of_getLast? last)).2 rfl

theorem IsWord.append (first : IsWord code) (second : IsWord more) : IsWord (code ++ more) := by
  refine ⟨fun c member => ?_, ?_⟩
  · rw [String.toList_append,mem_append] at member
    rcases member with early | late
    · exact first.letters c early
    · exact second.letters c late
  · rw [String.toList_append]
    exact first.calm.append second.calm

theorem isWord_of_isSafe (letters : ∀ c ∈ code.toList, isPlain c = true ∧ c ≠ 'n')
    (safe : ∀ c ∈ code.toList.head?, isSafe c = true) : IsWord code := by
  refine ⟨letters, ?_⟩
  cases found : code.toList with
  | nil => exact calm_nil
  | cons c rest =>
    rw [found] at safe
    exact calm_of_isSafe (safe c rfl) rest

/-- Inside text a colon ends no statement. -/
theorem statements_of_text {text : List Char} (plain : ∀ c ∈ text, c ≠ '\n' ∧ c ≠ '→' ∧ c ≠ '"') :
    statements true text = [text] := by
  induction text with
  | nil => rfl
  | cons c rest ih =>
    obtain ⟨noBreak,noStore,noQuote⟩ := plain c (by simp)
    have goesOn : endsStatement true c = false := by simp [endsStatement,noBreak]
    have same : inTextAfter true c = true := by simp [inTextAfter,noBreak,noStore,noQuote]
    rw [statements,goesOn,same,ih fun other member => plain other (by simp [member])]
    rfl

theorem inert_quoted {text : String} (plain : ∀ c ∈ text.toList, c ≠ '\n' ∧ c ≠ '→' ∧ c ≠ '"') :
    Inert returnless ("\"" ++ text ++ "\"") := by
  have chars : ("\"" ++ text ++ "\"").toList = '"' :: (text.toList ++ ['"']) := by simp
  have inside : openAfter true text.toList = true := openAfter_of_plain plain
  have one : statements true (text.toList ++ ['"']) = [text.toList ++ ['"']] := by
    obtain ⟨earlier,last,whole,joined⟩ := statements_append true text.toList
    have ends : statements true ['"'] = [['"']] := rfl
    rw [statements_of_text plain] at whole
    rw [joined,inside,ends]
    cases earlier with
    | nil =>
      cases whole
      rfl
    | cons first others => simp at whole
  refine ⟨?_, ?_, ?_, ?_⟩
  · rw [chars]
    simp only [mem_cons,mem_append,not_mem_nil,or_false]
    rintro (quote | within | quote)
    · exact absurd quote (by decide)
    · exact (plain _ within).1 rfl
    · exact absurd quote (by decide)
  · have opened : openAfter false ['"'] = true := rfl
    rw [chars,← List.singleton_append,openAfter_append,openAfter_append,opened,inside]
    rfl
  · intro statement member
    rw [chars,statements] at member
    have quoted : statements (inTextAfter false '"') (text.toList ++ ['"']) = [text.toList ++ ['"']] := one
    rw [quoted] at member
    rw [mem_singleton.mp member]
    exact calm_of_isSafe (by decide) _
  · intro _
    rw [chars,← cons_append,getLast?_concat]
    nofun

/-! ### Left out closers -/

/-- What may be left out at the end of a statement. -/
def isTrimmed (c : Char) : Bool := isCloser c || c == '"'

theorem statements_of_isTrimmed (trimmed : ∀ c ∈ tail, isTrimmed c = true) : statements inText tail = [tail] := by
  apply statements_of_inside
  intro c member
  have mark := trimmed c member
  constructor
  · rintro rfl
    revert mark
    decide
  · rintro rfl
    revert mark
    decide

theorem exists_trimClosers (code : String) : ∃ tail, (trimClosers code).toList ++ tail = code.toList ∧
    ∀ c ∈ tail, isTrimmed c = true := by
  obtain ⟨tail,whole,closers⟩ := Text.trimEndWhile_append isCloser code.toList
  have trimmed : ∀ c ∈ tail, isTrimmed c = true := by
    intro c member
    simp [isTrimmed,closers c member]
  rw [trimClosers,String.toList_ofList]
  split
  · rename_i quoted
    refine ⟨'"' :: tail, ?_, ?_⟩
    · have restored := dropLast_append_getLast? '"' (beq_iff_eq.mp quoted)
      rw [← List.singleton_append,← List.append_assoc,restored,whole]
    · intro c member
      rcases List.mem_cons.mp member with rfl | later
      · rfl
      · exact trimmed c later
  · exact ⟨tail, whole, trimmed⟩

theorem Inert.store {place : String} (first : Inert returnless code) (second : Inert returnless place) :
    Inert returnless (trimClosers code ++ "→" ++ place) := by
  obtain ⟨tail,whole,trimmed⟩ := exists_trimClosers code
  obtain ⟨earlier,last,_,joined⟩ := statements_append false (trimClosers code).toList
  have chars : (trimClosers code ++ "→" ++ place).toList = (trimClosers code).toList ++ '→' :: place.toList := by simp
  have stored (inText : Bool) : statements inText ('→' :: place.toList) =
      (statements false place.toList).modifyHead ('→' :: ·) := by
    cases inText <;> rfl
  have calm := first.calm
  rw [← whole,joined,statements_of_isTrimmed trimmed,List.modifyHead_cons] at calm
  refine ⟨?_, ?_, ?_, ?_⟩
  · rw [chars,List.mem_append,List.mem_cons]
    rintro (within | mark | after)
    · exact first.unbroken (mem_of_mem_trimClosers within)
    · exact absurd mark (by decide)
    · exact second.unbroken after
  · have ends (inText : Bool) : openAfter inText ('→' :: place.toList) = openAfter false place.toList := by
      cases inText <;> rfl
    rw [chars,openAfter_append,ends,second.closed]
  · intro statement member
    rw [chars,joined,stored,List.modifyHead_modifyHead] at member
    have calmSecond := second.calm
    generalize statements false place.toList = others at member calmSecond
    rcases List.mem_append.mp member with early | late
    · exact calm statement (List.mem_append_left _ early)
    · cases others with
      | nil => cases late
      | cons next others =>
        rw [List.modifyHead_cons] at late
        rcases List.mem_cons.mp late with rfl | later
        · exact calm_of_store (calm (last ++ tail) (by simp)) next
        · exact calmSecond statement (by simp [later])
  · intro none
    rw [chars,List.getLast?_append,List.getLast?_cons]
    cases found : place.toList.getLast? with
    | none => nofun
    | some c =>
      have ends := second.ends none
      rwa [found] at ends

theorem Inert.marks (inert : Inert returnless code) : marks code = [] := by
  refine List.filterMap_eq_nil_iff.mpr fun statement member => ?_
  exact mark?_eq_none fun keyword isKeyword => not_prefix_of_isStart (inert.calm statement member).isStart isKeyword

end Expressions

/-! ### Whole statements -/

/-- A statement of expressions, a test, or a statement that opens or closes a block. -/
def IsKnown (statement : List Char) : Prop :=
  isStart statement = true ∨ testHead <+: statement ∨ mark? statement ≠ none

/-- A statement as it is emitted, or what is left of it without closers. -/
def IsCut (statement : List Char) : Prop :=
  ∃ tail, (∀ c ∈ tail, isTrimmed c = true) ∧ IsKnown (statement ++ tail)

theorem isCut_of_isKnown (known : IsKnown statement) : IsCut statement :=
  ⟨[], nofun, by rwa [List.append_nil]⟩

theorem IsCut.trim (cut : IsCut (statement ++ tail)) (trimmed : ∀ c ∈ tail, isTrimmed c = true) : IsCut statement := by
  obtain ⟨more,trimmedMore,known⟩ := cut
  rw [List.append_assoc] at known
  refine ⟨tail ++ more, fun c member => ?_, known⟩
  rcases List.mem_append.mp member with early | late
  · exact trimmed c early
  · exact trimmedMore c late

theorem mark?_test (test : testHead <+: statement) : mark? statement = none := by
  obtain ⟨rest,rfl⟩ := test
  rfl

theorem mark?_trim (trimmed : ∀ c ∈ tail, isTrimmed c = true) (known : IsKnown (statement ++ tail)) :
    mark? statement = mark? (statement ++ tail) := by
  have apart : ∀ keyword ∈ keywords, ∀ c ∈ keyword, isTrimmed c = false := by decide
  cases tail with
  | nil => rw [List.append_nil]
  | cons c tail =>
    have mark := trimmed c (by simp)
    have absent {keyword : List Char} (isKeyword : keyword ∈ keywords) : c ∉ keyword := by
      intro member
      rw [apart keyword isKeyword c member] at mark
      cases mark
    have heads : loopHeads.any (·.isPrefixOf (statement ++ c :: tail)) = loopHeads.any (·.isPrefixOf statement) := by
      rw [Bool.eq_iff_iff,List.any_eq_true,List.any_eq_true]
      simp only [List.isPrefixOf_iff_prefix]
      constructor
      · rintro ⟨head,isHead,begins⟩
        exact ⟨head, isHead, prefix_of_not_mem (absent (List.mem_append_left _ isHead)) begins⟩
      · rintro ⟨head,isHead,begins⟩
        exact ⟨head, isHead, begins.trans (List.prefix_append _ _)⟩
    have noKeyword {keyword : List Char} (isKeyword : keyword ∈ keywords) : statement ++ c :: tail ≠ keyword := by
      rintro rfl
      exact absent isKeyword (by simp)
    have noBranch := noKeyword (show "Then".toList ∈ keywords by decide)
    have noAlternative := noKeyword (show "Else".toList ∈ keywords by decide)
    have noEnd := noKeyword (show "End".toList ∈ keywords by decide)
    rcases known with start | test | marked
    · have unmarked {keyword : List Char} (isKeyword : keyword ∈ keywords) : ¬ keyword <+: statement := fun begins =>
        not_prefix_of_isStart start isKeyword (begins.trans (List.prefix_append _ _))
      rw [mark?_eq_none fun keyword isKeyword => unmarked isKeyword,
        mark?_eq_none fun keyword isKeyword => not_prefix_of_isStart start isKeyword]
    · have begins := prefix_of_not_mem (absent (show testHead ∈ keywords by decide)) test
      rw [mark?_test begins,mark?_test test]
    · simp only [mark?,heads,noBranch,noAlternative,noEnd,if_false] at marked ⊢
      split
      · rfl
      · rename_i noHead
        rw [if_neg noHead] at marked
        exact absurd rfl marked

/-- Leaving out closers makes no mark and takes none away. -/
theorem IsCut.mark? (cut : IsCut (statement ++ tail))
    (trimmed : ∀ c ∈ tail, isTrimmed c = true) : Code.mark? statement = Code.mark? (statement ++ tail) := by
  obtain ⟨more,trimmedMore,known⟩ := cut
  have outer := mark?_trim trimmedMore known
  rw [List.append_assoc] at known outer
  refine (mark?_trim (fun c member => ?_) known).trans outer.symm
  rcases List.mem_append.mp member with early | late
  · exact trimmed c early
  · exact trimmedMore c late

/-- The code ends outside text, with statements that can be told from others. -/
structure Ended (code : String) : Prop where
  closed : openAfter false code.toList = false
  cut : ∀ statement ∈ statements false code.toList, IsCut statement

theorem ended_empty : Ended "" := by
  refine ⟨rfl, fun statement member => ?_⟩
  rw [List.mem_singleton.mp member]
  exact isCut_of_isKnown (.inl rfl)

theorem Ended.break (first : Ended code) (second : Ended more) : Ended (code ++ "\n" ++ more) := by
  have chars : (code ++ "\n" ++ more).toList = code.toList ++ '\n' :: more.toList := by simp
  have ends (inText : Bool) : openAfter inText ('\n' :: more.toList) = openAfter false more.toList := by
    cases inText <;> rfl
  constructor
  · rw [chars,openAfter_append,ends,second.closed]
  · intro statement member
    rw [chars,statements_break] at member
    rcases List.mem_append.mp member with early | late
    · exact first.cut statement early
    · exact second.cut statement late

theorem Ended.colon (first : Ended code) (second : Ended more) :
    Ended (code ++ ":" ++ more) ∧ Code.marks (code ++ ":" ++ more) = Code.marks code ++ Code.marks more := by
  have chars : (code ++ ":" ++ more).toList = code.toList ++ ':' :: more.toList := by simp
  have ends : openAfter false (':' :: more.toList) = openAfter false more.toList := rfl
  refine ⟨⟨?_, ?_⟩, ?_⟩
  · rw [chars,openAfter_append,first.closed,ends,second.closed]
  · intro statement member
    rw [chars,statements_colon first.closed] at member
    rcases List.mem_append.mp member with early | late
    · exact first.cut statement early
    · exact second.cut statement late
  · rw [Code.marks,chars,statements_colon first.closed,List.filterMap_append]
    rfl

theorem Inert.ended {returnless : Prop} (inert : Inert returnless code) : Ended code :=
  ⟨inert.closed, fun statement member => isCut_of_isKnown (.inl (inert.calm statement member).isStart)⟩

/-- Code whose lines may be followed by other statements. -/
def Joinable (code : String) : Prop := ∀ line ∈ lines code, Ended line

theorem Joinable.ended (joinable : Joinable code) : Ended code := by
  have joined {pieces : List String} (each : ∀ piece ∈ pieces, Ended piece) : Ended ("\n".intercalate pieces) := by
    induction pieces with
    | nil => exact ended_empty
    | cons piece rest ih =>
      have others := ih fun other member => each other (by simp [member])
      cases rest with
      | nil =>
        rw [String.intercalate_singleton]
        exact each piece (by simp)
      | cons second later =>
        rw [String.intercalate_cons_cons]
        exact (each piece (by simp)).break others
  rw [← intercalate_splitOn code]
  refine joined fun piece member => ?_
  obtain ⟨chars,split,rfl⟩ := List.mem_map.mp member
  cases chars with
  | nil => exact ended_empty
  | cons c rest =>
    apply joinable
    rw [lines_eq]
    exact List.mem_map_of_mem (List.mem_filter.mpr ⟨split, rfl⟩)

theorem joinable_of_ended {line : String} (whole : '\n' ∉ line.toList) (ended : Ended line) : Joinable line := by
  intro other member
  by_cases empty : line = ""
  · rw [empty,lines_empty] at member
    cases member
  · rw [lines_singleton empty whole] at member
    rw [List.mem_singleton.mp member]
    exact ended

/-! ### Statements on one line -/

theorem trimmed_keeps {code : String} (cut : ∀ statement ∈ statements false code.toList, IsCut statement)
    {drops : Char → Bool}
    (each : ∀ c, drops c = true → isTrimmed c = true) :
    marks (String.ofList (Text.trimEndWhile drops code.toList)) = marks code ∧
      ∀ statement ∈ statements false (Text.trimEndWhile drops code.toList), IsCut statement := by
  obtain ⟨tail,whole,dropped⟩ := Text.trimEndWhile_append drops code.toList
  obtain ⟨earlier,last,found,joined⟩ := statements_append false (Text.trimEndWhile drops code.toList)
  have trimmed : ∀ c ∈ tail, isTrimmed c = true := fun c member => each c (dropped c member)
  have all : statements false code.toList = earlier ++ [last ++ tail] := by
    rw [← whole,joined,statements_of_isTrimmed trimmed,List.modifyHead_cons]
  rw [all] at cut
  have lastCut := cut (last ++ tail) (by simp)
  constructor
  · rw [marks,String.toList_ofList,found,marks,all,List.filterMap_append,List.filterMap_append]
    simp only [List.filterMap_cons,List.filterMap_nil,lastCut.mark? trimmed]
  · intro statement member
    rw [found] at member
    rcases List.mem_append.mp member with early | late
    · exact cut statement (List.mem_append_left _ early)
    · rw [List.mem_singleton.mp late]
      exact lastCut.trim trimmed

theorem Ended.trimBrackets (ended : Ended code) :
    Ended (trimBrackets code) ∧ Code.marks (trimBrackets code) = Code.marks code := by
  obtain ⟨same,cut⟩ := @trimmed_keeps code ended.cut isCloser fun c closer => by simp [isTrimmed,closer]
  obtain ⟨tail,whole,dropped⟩ := Text.trimEndWhile_append isCloser code.toList
  refine ⟨⟨?_, ?_⟩, same⟩
  · have plain : ∀ c ∈ tail, c ≠ '\n' ∧ c ≠ '→' ∧ c ≠ '"' := by
      intro c member
      have closer := dropped c member
      refine ⟨?_, ?_, ?_⟩ <;> rintro rfl <;> cases closer
    have closed := ended.closed
    rw [← whole,openAfter_append,openAfter_of_plain plain] at closed
    rwa [Code.trimBrackets,String.toList_ofList]
  · rwa [Code.trimBrackets,String.toList_ofList]

theorem marks_joinStatements (each : ∀ code ∈ codes, Ended code) : marks (joinStatements codes) = codes.flatMap marks := by
  have joined {pieces : List String} (each : ∀ piece ∈ pieces, Ended piece) :
      Ended (":".intercalate pieces) ∧ marks (":".intercalate pieces) = pieces.flatMap marks := by
    induction pieces with
    | nil => exact ⟨ended_empty, rfl⟩
    | cons piece rest ih =>
      have first := each piece (by simp)
      have others := ih fun other member => each other (by simp [member])
      cases rest with
      | nil => simpa using first
      | cons second later =>
        obtain ⟨ended,same⟩ := first.colon others.1
        rw [String.intercalate_cons_cons,flatMap_cons,← others.2]
        exact ⟨ended, same⟩
  have trimmed : ∀ piece ∈ codes.map trimBrackets, Ended piece := by
    intro piece member
    obtain ⟨code,isCode,rfl⟩ := mem_map.mp member
    exact (each code isCode).trimBrackets.1
  obtain ⟨ended,same⟩ := joined trimmed
  have kept : (codes.map trimBrackets).flatMap marks = codes.flatMap marks := by
    rw [flatMap_map]
    exact flatMap_congr fun code member => (each code member).trimBrackets.2
  rw [joinStatements,(trimmed_keeps ended.cut fun c quote => by simp [isTrimmed,quote]).1,same,kept]

/-! ### Frames of blocks -/

/-- Code with these marks. -/
structure Marked (lineless : Prop) (found : List Mark) (code : String) : Prop where
  marks : marks code = found
  joinable : lineless → Joinable code

/-- Code of statements, with all its blocks closed. If it is not made of statements on one
line, others may follow it on its last line. -/
structure Whole (lineless : Prop) (code : String) : Prop where
  balanced : Balanced (marks code)
  joinable : lineless → Joinable code

section Frames

variable {lineless returnless : Prop}

theorem Whole.marked (whole : Whole lineless code) : Marked lineless (Code.marks code) code :=
  ⟨rfl, whole.joinable⟩

theorem Marked.whole (marked : Marked lineless found code) (balanced : Balanced found) : Whole lineless code :=
  ⟨marked.marks ▸ balanced, marked.joinable⟩

theorem Whole.mono {weaker : Prop} (whole : Whole lineless code) (imply : weaker → lineless) : Whole weaker code :=
  ⟨whole.balanced, fun known => whole.joinable (imply known)⟩

theorem Inert.marked (inert : Inert returnless code) : Marked lineless [] code :=
  ⟨inert.marks, fun _ => joinable_of_ended inert.unbroken inert.ended⟩

theorem Inert.whole (inert : Inert returnless code) : Whole lineless code := inert.marked.whole .nil

theorem whole_empty : Whole lineless "" := (inert_empty : Inert False "").whole

/-- Pieces of code with these marks in all. -/
structure MarkedAll (lineless : Prop) (found : List Mark) (codes : List String) : Prop where
  marks : codes.flatMap marks = found
  joinable : lineless → ∀ code ∈ codes, Joinable code

theorem markedAll_nil : MarkedAll lineless [] [] := ⟨rfl, nofun⟩

theorem Marked.cons {found others : List Mark} {code : String} {codes : List String} (first : Marked lineless found code)
    (rest : MarkedAll lineless others codes) : MarkedAll lineless (found ++ others) (code :: codes) := by
  constructor
  · rw [flatMap_cons,first.marks,rest.marks]
  · intro known
    rw [forall_mem_cons]
    exact ⟨first.joinable known, rest.joinable known⟩

theorem MarkedAll.append {more : List String} (first : MarkedAll lineless found codes)
    (second : MarkedAll lineless others more) : MarkedAll lineless (found ++ others) (codes ++ more) := by
  constructor
  · rw [flatMap_append,first.marks,second.marks]
  · intro known code member
    rcases mem_append.mp member with early | late
    · exact first.joinable known code early
    · exact second.joinable known code late

theorem markedAll_inert {codes : List String} (each : ∀ code ∈ codes, Inert returnless code) :
    MarkedAll lineless [] codes := by
  induction codes with
  | nil => exact markedAll_nil
  | cons code rest ih =>
    rw [forall_mem_cons] at each
    exact each.1.marked.cons (ih each.2)

theorem markedAll_whole (each : ∀ code ∈ codes, Whole lineless code) : MarkedAll lineless (codes.flatMap Code.marks) codes :=
  ⟨rfl, fun known code member => (each code member).joinable known⟩

theorem MarkedAll.join (all : MarkedAll lineless found codes)
    (same : lines code = codes.flatMap lines) : Marked lineless found code := by
  constructor
  · rw [marks_eq,same,flatMap_assoc,← all.marks]
    exact flatMap_congr fun piece _ => (marks_eq piece).symm
  · intro known line member
    rw [same] at member
    obtain ⟨piece,isPiece,isLine⟩ := mem_flatMap.mp member
    exact all.joinable known piece isPiece line isLine

theorem Marked.break (first : Marked lineless found code)
    (second : Marked lineless others more) : Marked lineless (found ++ others) (code ++ "\n" ++ more) := by
  have all := first.cons (second.cons markedAll_nil)
  rw [append_nil] at all
  exact all.join (by rw [lines_break]; simp)

theorem whole_joinLines (each : ∀ code ∈ codes, Whole lineless code) : Whole lineless (joinLines codes) := by
  refine ((markedAll_whole each).join (lines_joinLines codes)).whole ?_
  rw [flatMap_def]
  refine Balanced.flatten fun found member => ?_
  obtain ⟨code,isCode,rfl⟩ := mem_map.mp member
  exact (each code isCode).balanced

theorem statements_plain_append {lead : List Char} (plain : ∀ c ∈ lead, isPlain c = true) (code : List Char) :
    statements false (lead ++ code) = (statements false code).modifyHead (lead ++ ·) ∧
      openAfter false (lead ++ code) = openAfter false code := by
  simp only [isPlain,Bool.and_eq_true,bne_iff_ne] at plain
  have one : statements false lead = [lead] :=
    statements_of_inside fun c member => ⟨(plain c member).1.1.1, (plain c member).1.2⟩
  have closed : openAfter false lead = false :=
    openAfter_of_plain fun c member => ⟨(plain c member).1.1.1, (plain c member).1.1.2, (plain c member).2⟩
  obtain ⟨earlier,last,whole,joined⟩ := statements_append false lead
  rw [joined,openAfter_append,closed]
  rw [one] at whole
  cases earlier with
  | nil =>
    cases whole
    exact ⟨rfl, rfl⟩
  | cons first others => simp at whole

theorem marked_first {code : String} (unbroken : '\n' ∉ code.toList) (closed : openAfter false code.toList = false)
    {first : List Char} {others : List (List Char)} (all : statements false code.toList = first :: others)
    (known : IsKnown first) (calm : ∀ statement ∈ others, Calm statement) :
    Ended code ∧ Marked lineless (mark? first).toList code := by
  have unmarked : others.filterMap mark? = [] := by
    refine filterMap_eq_nil_iff.mpr fun statement member => ?_
    exact mark?_eq_none fun keyword isKeyword => not_prefix_of_isStart (calm statement member).isStart isKeyword
  have ended : Ended code := by
    refine ⟨closed, fun statement member => ?_⟩
    rw [all] at member
    rcases mem_cons.mp member with rfl | later
    · exact isCut_of_isKnown known
    · exact isCut_of_isKnown (.inl (calm statement later).isStart)
  refine ⟨ended, ?_, fun _ => joinable_of_ended unbroken ended⟩
  rw [Code.marks,all,filterMap_cons,unmarked]
  cases mark? first <;> rfl

theorem marked_lead {lead : String} (plain : ∀ c ∈ lead.toList, isPlain c = true)
    (leads : ∀ rest, IsKnown (lead.toList ++ rest) ∧ (mark? (lead.toList ++ rest)).toList = found)
    (inert : Inert returnless code) : Ended (lead ++ code) ∧ Marked lineless found (lead ++ code) := by
  obtain ⟨all,closed⟩ := statements_plain_append plain code.toList
  obtain ⟨first,others,split⟩ := exists_cons_of_ne_nil (l := statements false code.toList) (by
    obtain ⟨earlier,last,whole,_⟩ := statements_append false code.toList
    rw [whole]
    simp)
  have calm := inert.calm
  rw [split] at calm all
  rw [← String.toList_append] at all closed
  obtain ⟨known,same⟩ := leads first
  rw [← same]
  refine marked_first ?_ (closed.trans inert.closed) all known fun statement member => calm statement (by simp [member])
  rw [String.toList_append,mem_append]
  rintro (early | late)
  · exact absurd (plain _ early) (by decide)
  · exact inert.unbroken late

theorem marked_head {head : String} (isHead : head.toList ∈ loopHeads) (inert : Inert returnless code) :
    Marked lineless [.loop] (head ++ code) := by
  have letters : ∀ head ∈ loopHeads, ∀ c ∈ head, isPlain c = true := by decide
  refine (marked_lead (letters head.toList isHead) (fun rest => ?_) inert).2
  have begins : loopHeads.any (·.isPrefixOf (head.toList ++ rest)) = true :=
    any_eq_true.mpr ⟨head.toList, isHead, isPrefixOf_iff_prefix.mpr (prefix_append _ _)⟩
  have marked : mark? (head.toList ++ rest) = some .loop := by rw [mark?,if_pos begins]
  rw [marked]
  exact ⟨.inr (.inr (by rw [marked]; nofun)), rfl⟩

theorem marked_test {test : String} (inert : Inert returnless test) : Ended ("If " ++ test) ∧
    Marked lineless [] ("If " ++ test) := by
  refine marked_lead (by decide) (fun rest => ?_) inert
  have begins : testHead <+: "If ".toList ++ rest := prefix_append _ _
  rw [mark?_test begins]
  exact ⟨.inr (.inl begins), rfl⟩

theorem marked_word {word : String} {mark : Mark} (plain : ∀ c ∈ word.toList, isPlain c = true)
    (marked : mark? word.toList = some mark) : Ended word ∧ Marked lineless [mark] word := by
  obtain ⟨all,closed⟩ := statements_plain_append plain []
  have one : statements false [] = [[]] := rfl
  rw [one,modifyHead_cons,append_nil] at all
  rw [append_nil] at closed
  have known : IsKnown word.toList := .inr (.inr (by rw [marked]; nofun))
  have found := @marked_first lineless _ (fun broken => absurd (plain _ broken) (by decide)) closed _ _ all known nofun
  rwa [marked] at found

theorem marked_end : Marked lineless [.close] "End" := (marked_word (by decide) rfl).2

theorem marked_else : Marked lineless [.alternative] "Else" := (marked_word (by decide) rfl).2

theorem marked_then (inert : Inert returnless test) : Marked lineless [.branch] ("If " ++ test ++ ":Then") := by
  obtain ⟨lead,unmarked⟩ := @marked_test lineless _ test inert
  have word : Ended "Then" ∧ Marked lineless [.branch] "Then" := marked_word (by decide) rfl
  have split : "If " ++ test ++ ":Then" = "If " ++ test ++ ":" ++ "Then" := by simp [← String.toList_inj]
  obtain ⟨ended,same⟩ := lead.colon word.1
  rw [split]
  refine ⟨by rw [same,unmarked.marks,word.2.marks]; rfl, fun _ => joinable_of_ended ?_ ended⟩
  simp only [String.toList_append,mem_append,not_or]
  exact ⟨⟨⟨by decide, inert.unbroken⟩, by decide⟩, by decide⟩

theorem whole_loop {header : String} (head : Marked lineless [.loop] header) (body : Whole lineless code) :
    Whole lineless (header ++ "\n" ++ code ++ "\nEnd") := by
  have split : header ++ "\n" ++ code ++ "\nEnd" = header ++ "\n" ++ code ++ "\n" ++ "End" := by
    simp [← String.toList_inj]
  rw [split]
  refine ((head.break body.marked).break marked_end).whole ?_
  exact .loop body.balanced .nil

theorem whole_branch (inert : Inert returnless test) (body : Whole lineless code) :
    Whole lineless ("If " ++ test ++ ":Then\n" ++ code ++ "\nEnd") := by
  have split : "If " ++ test ++ ":Then\n" ++ code ++ "\nEnd" =
      "If " ++ test ++ ":Then" ++ "\n" ++ code ++ "\n" ++ "End" := by
    simp [← String.toList_inj]
  rw [split]
  refine (((marked_then inert).break body.marked).break marked_end).whole ?_
  exact .branch body.balanced .nil

theorem whole_choice {rest : String} (inert : Inert returnless test) (body : Whole lineless code)
    (other : Whole lineless rest) :
    Whole lineless ("If " ++ test ++ ":Then\n" ++ code ++ "\nElse\n" ++ rest ++ "\nEnd") := by
  have split : "If " ++ test ++ ":Then\n" ++ code ++ "\nElse\n" ++ rest ++ "\nEnd" =
      "If " ++ test ++ ":Then" ++ "\n" ++ code ++ "\n" ++ "Else" ++ "\n" ++ rest ++ "\n" ++ "End" := by
    simp [← String.toList_inj]
  rw [split]
  refine (((((marked_then inert).break body.marked).break marked_else).break other.marked).break marked_end).whole ?_
  have balanced : Balanced (.branch :: (marks code ++ .alternative :: (marks rest ++ .close :: []))) :=
    .choice body.balanced other.balanced .nil
  simpa using balanced

/-- A test without a block, for the one statement on the next line. -/
theorem whole_test (inert : Inert returnless test) (body : Whole lineless code) :
    Whole lineless ("If " ++ test ++ "\n" ++ code) :=
  ((marked_test inert).2.break body.marked).whole body.balanced

end Frames

end CalcBasic.Code
