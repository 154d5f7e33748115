import CalcBasic.Proofs.Lasting
import CalcBasic.Proofs.LoopRoutine
import CalcBasic.Proofs.WholeNumbers

/-! Loops over ranges of whole numbers. A range with constant bounds is counted by the
loop itself; for any other range a list is filled first. Both run the body for the
values of the range, but for a range without values the list still has an element. -/
namespace CalcBasic
open Code (lines lines_store)
open Number (Holds lt_zero_iff holds_one code_whole holds_zero)

/-! ### Whole numbers as trees -/

/-- A whole number, given those that variables hold. -/
abbrev Tally := (String → Int) → Int

/-- A tree that counts as a whole number, given those that its variables hold: a literal
or a variable, or one of them with literals added or taken away. Where it is constant
all that is computed with it is exact. -/
inductive Tree.Tallies (scalar : String → Prop) : Tree → Tally → Prop
  | number {x : Float} {n : Int} (holds : Holds x n) (small : n.natAbs < 2 ^ 53) :
      Tallies scalar (.number x) fun _ => n
  | var {name : String} (known : scalar name) : Tallies scalar (.var name) fun values => values name
  | add {left : Tree} {value : Tally} {x : Float} {m : Nat} (tallies : Tallies scalar left value)
      (holds : Holds x m) (small : m < 2 ^ 53)
      (exact : left.isSimple = true → ∀ values, (value values + m).natAbs < 2 ^ 53) :
      Tallies scalar (.arith left .add (.number x)) fun values => value values + m
  | sub {left : Tree} {value : Tally} {x : Float} {m : Nat} (tallies : Tallies scalar left value)
      (holds : Holds x m) (small : m < 2 ^ 53)
      (exact : left.isSimple = true → ∀ values, (value values - m).natAbs < 2 ^ 53) :
      Tallies scalar (.arith left .sub (.number x)) fun values => value values - m

namespace Tree.Tallies

variable {scalar : String → Prop} {tree : Tree} {value : Tally}

theorem mono {other : String → Prop} (tallies : Tallies scalar tree value) (known : ∀ name, scalar name → other name) :
    Tallies other tree value := by
  induction tallies with
  | number holds small => exact .number holds small
  | var isScalar => exact .var (known _ isScalar)
  | add _ holds small exact ih => exact .add ih holds small exact
  | sub _ holds small exact ih => exact .sub ih holds small exact

theorem evaluate (tallies : Tallies scalar tree value) (simple : tree.isSimple = true) :
    ∃ x n, tree.evaluate = .ok (some (.number x)) ∧ Holds x n ∧ n.natAbs < 2 ^ 53 ∧ value = fun _ => n := by
  induction tallies with
  | number holds small => exact ⟨_, _, rfl, holds, small, rfl⟩
  | var known => cases simple
  | @add left value y m tallies holds small exact ih =>
    have constant : left.isSimple = true := ((Bool.and_eq_true _ _).mp simple).1
    obtain ⟨x,n,evaluated,held,bounded,rfl⟩ := ih constant
    have sum := Number.holds_add held bounded holds (by omega) (exact constant fun _ => 0)
    refine ⟨x + y, n + m, ?_, sum, exact constant fun _ => 0, rfl⟩
    simp [Tree.evaluate,evaluated,Arith.evaluate,Constant.number?,Arith.apply,sum.1,bind,Except.bind]
  | @sub left value y m tallies holds small exact ih =>
    have constant : left.isSimple = true := ((Bool.and_eq_true _ _).mp simple).1
    obtain ⟨x,n,evaluated,held,bounded,rfl⟩ := ih constant
    have difference := Number.holds_sub held bounded holds (by omega) (exact constant fun _ => 0)
    refine ⟨x - y, n - m, ?_, difference, exact constant fun _ => 0, rfl⟩
    simp [Tree.evaluate,evaluated,Arith.evaluate,Constant.number?,Arith.apply,difference.1,bind,Except.bind]

/-- On the left of a sum or difference it stands without parentheses. -/
theorem not_wrapped (tallies : Tallies scalar tree value) (modern : Bool) {op : Arith} (additive : op = .add ∨ op = .sub) :
    tree.isWrapped modern (.arith op) false = false := by
  rcases additive with rfl | rfl <;> cases tallies <;> simp [isWrapped,strength,Arith.strength,Operator.strength]

theorem eq_one (tallies : Tallies scalar tree value) (one : tree.isOne = true) : value = fun _ => 1 := by
  cases tallies with
  | number holds small => rw [(Number.eq_one_iff holds small).mp one]
  | var | add | sub => cases one

end Tree.Tallies

/-- The bounds of a range count as whole numbers, and its step is a constant one. -/
structure Range.Tallies (scalar : String → Prop) (range : Range) (first last : Tally) (step : Int) : Prop where
  start : range.start.Tallies scalar first
  stop : range.stop.Tallies scalar last
  exact : range.stop.isSimple = true → ∀ values, (last values).natAbs + 1 < 2 ^ 53
  step : range.step.Tallies scalar fun _ => step
  constant : range.step.isSimple = true

namespace Range.Tallies

variable {scalar : String → Prop} {range : Range} {first last : Tally} {step : Int}

/-- The last value that the counter may take lies next to an end that is left out. -/
theorem lastValue (tallies : range.Tallies scalar first last step) :
    range.lastValue.Tallies scalar fun values =>
      if range.inclusive then last values else if step < 0 then last values + 1 else last values - 1 := by
  obtain ⟨x,n,evaluated,holds,small,same⟩ := tallies.step.evaluate tallies.constant
  obtain rfl : step = n := congrFun same fun _ => 0
  have constant : range.step.constantNumber = .ok (some x) := by
    rw [Tree.constantNumber,evaluated]
    rfl
  unfold Range.lastValue
  cases range.inclusive with
  | true => exact tallies.stop
  | false =>
    rw [constant]
    by_cases down : step < 0
    · simp only [Bool.false_eq_true,if_false,if_pos down,if_pos ((lt_zero_iff holds small).mpr down)]
      refine .add (m := 1) tallies.stop holds_one (by decide) fun simple values => ?_
      have bounded := tallies.exact simple values
      omega
    · simp only [Bool.false_eq_true,if_false,if_neg down,if_neg (down ∘ (lt_zero_iff holds small).mp)]
      refine .sub (m := 1) tallies.stop holds_one (by decide) fun simple values => ?_
      have bounded := tallies.exact simple values
      omega

end Range.Tallies

/-! ### Variables -/

namespace Symbols

variable (symbols : Symbols)

/-- The name has its place, which it shares with no other. -/
def Houses (symbols : Symbols) (name : String) : Prop :=
  ∀ other, symbols.home other = symbols.home name ↔ other.toLower = name.toLower

theorem type_of_lower {name other : String} (same : name.toLower = other.toLower) : symbols.type name = symbols.type other := by
  simp only [type, entry?,same]

theorem type_setType_self (name : String) (type : ValueType) :
    (symbols.setType name type).type name = if (symbols.entry? name).isSome then type else .number := by
  rw [type_setType_eq,Symbols.type]
  cases symbols.entry? name <;> simp

theorem isSome_entry?_reference (name other : String) :
    ( Symbols.entry? (symbols.reference name) other).isSome = ((symbols.entry? other).isSome || name.toLower == other.toLower) := by
  unfold reference
  split
  · rename_i v found
    have updated := @entry?_update symbols name other (fun v => { v with uses := v.uses + 1 }) fun _ => rfl
    rw [updated,Option.isSome_map]
    by_cases same : name.toLower = other.toLower
    · have known : symbols.entry? other = symbols.entry? name := by simp only [ entry?,same]
      simp [known,found]
    · simp [same]
  · simp only [ entry?,List.find?_append,List.find?_singleton]
    cases symbols.entries.find? (·.name == other.toLower) with
    | some v => simp
    | none => by_cases same : name.toLower = other.toLower <;> simp [same]

theorem isSome_entry?_temporary (other : String) : ( Symbols.entry? symbols.temporary.2 other).isSome =
    ((symbols.entry? other).isSome || (temporaryName symbols.temporaries).toLower == other.toLower) :=
  isSome_entry?_reference { symbols with temporaries := symbols.temporaries + 1 } _ other

theorem temporaries_temporary : symbols.temporary.2.temporaries = symbols.temporaries + 1 := by
  unfold temporary reference
  dsimp only
  split <;> rfl

end Symbols

namespace Emit
open CalcBasic.Action Symbols

variable {table : FunctionTable} {kind : String → ValueType → Prop} {least : Nat} {scalar : String → Prop}
  (depth : Nat) (settled : Bool) {α : Type} {emitter after : Emitter} {body collection : Tree} {count name counter list : String} {range : Range}
  {first last : Tally} {step : Int}

/-- Some names have types that are known, and no temporary is older than said. -/
structure Typed (table : FunctionTable) (kind : String → ValueType → Prop) (least : Nat) (symbols : Symbols) : Prop where
  functions : symbols.functions = table
  listed : [overflowList] <+: symbols.lists
  typed : ∀ name type, kind name type → symbols.type name = type
  fresh : least ≤ symbols.temporaries

abbrev Steady (table : FunctionTable) (kind : String → ValueType → Prop) (least : Nat) (emitter : Emitter) : Prop :=
  Typed table kind least emitter.symbols

theorem outcome_get_bind (next : Emitter → Emit α) (emitter : Emitter) :
    outcome (get >>= next) emitter = outcome (next emitter) emitter := rfl

theorem grows_scalarCode {place : String} (done : outcome (scalarCode name) emitter = (.ok place, after)) :
    Grows (emitter.symbols.slot name).2 after.symbols := by
  obtain ⟨slot,middle,queried,done⟩ := outcome_bind_eq_ok done
  have reached : middle = { emitter with symbols := (emitter.symbols.slot name).2 } := congrArg Prod.snd queried.symm
  subst reached
  cases slot with
  | letter letter =>
    cases done
    exact .refl _
  | overflow index =>
    have moved := keeps_bind (keeps_listCode overflowList) (fun code => keeps_pure (code ++ "(" ++ toString index ++ ")"))
      { emitter with symbols := (emitter.symbols.slot name).2 }
    rw [done] at moved
    exact (extends_of_emit _ _ moved.symbols).grows

theorem lasts_scalar (number : kind name .number) : Lasts (Steady table kind least) (variableCode name)
      fun later place => place = (later.home name).code ∧ later.Houses name := by
  intro emitter place after typed done
  have numeric := typed.typed name .number number
  have scalar : (Tree.var name).isScalar emitter.symbols = true := by
    rw [Tree.isScalar,numeric]
    rfl
  obtain ⟨text,reached,settled,settling,told⟩ := settles_variableCode typed.listed scalar
  have moved := keeps_variableCode name emitter
  rw [done] at settled moved
  cases settled
  unfold variableCode at done
  rw [outcome_get_bind,numeric] at done
  have housed := grows_scalarCode done
  refine ⟨⟨?_, ?_, ?_, ?_⟩, settling.grows, fun later grown => ⟨told later grown, fun other => ?_⟩⟩
  · exact moved.symbols.functions.trans typed.functions
  · exact typed.listed.trans settling.grows.lists
  · exact fun other type known => (type_of_entries settling.entries other).trans (typed.typed other type known)
  · exact Nat.le_trans typed.fresh moved.symbols.temporaries
  · have same : later.home name = emitter.symbols.home name := (slot_later (housed.trans grown) name).mpr rfl
    rw [same]
    exact slot_later (housed.trans grown) other

theorem lasts_list (list : kind name .list) :
    Lasts (Steady table kind least) (variableCode name) fun later place => place = "∟" ++ (later.listName name).1 := by
  intro emitter place after typed done
  unfold variableCode at done
  rw [outcome_get_bind,typed.typed name .list list] at done
  have told : outcome (listCode name) emitter = (.ok ("∟" ++ (emitter.symbols.listName name).1),
    { emitter with symbols := (emitter.symbols.listName name).2 }) := rfl
  rw [told] at done
  cases done
  have grown := (listName_extends emitter.symbols name).grows
  refine ⟨⟨typed.functions, typed.listed.trans grown.lists, typed.typed, typed.fresh⟩, grown, fun later beyond => ?_⟩
  have same : (later.listName name).1 = (emitter.symbols.listName name).1 := (listName_later beyond name).mpr rfl
  exact congrArg ("∟" ++ ·) same.symm

theorem lasts_unfolded {action : Emit α} {result : Symbols → α → Prop}
    (lasts : Lasts (Steady table kind least) action result) : Lasts (Steady table kind least) (unfolded action) result := by
  intro emitter value after typed done
  rw [outcome_unfolded] at done
  cases reached : outcome action { emitter with folding := false } with
  | mk answer middle =>
    rw [reached] at done
    cases done
    exact lasts { emitter with folding := false } value middle typed reached

theorem lasts_number (x : Float) :
    Lasts (Steady table kind least) (render depth settled (.number x)) fun _ text => text = Number.code x := by
  cases depth with
  | zero => exact lasts_throw _
  | succ depth => exact lasts_pure fun _ => rfl

theorem lasts_var (number : kind name .number) : Lasts (Steady table kind least) (render depth settled (.var name))
      fun later place => place = (later.home name).code ∧ later.Houses name := by
  cases depth with
  | zero => exact lasts_throw _
  | succ depth => exact lasts_scalar number

theorem lasts_listVar (list : kind name .list) : Lasts (Steady table kind least) (render depth settled (.var name))
      fun later place => place = "∟" ++ (later.listName name).1 := by
  cases depth with
  | zero => exact lasts_throw _
  | succ depth => exact lasts_list list

/-! ### Amounts -/

/-- The text is that of an amount, whose value is told by what the variables hold. -/
def Worth (value : Tally) (later : Symbols) (text : String) : Prop :=
  '\n' ∉ text.toList ∧ ∃ amount : Amount, text = amount.code ∧
    ∀ memory : Memory, amount.value memory = value fun name => memory.scalars (later.home name)

theorem break_not_mem_integer (n : Int) : '\n' ∉ (toString n).toList := by
  cases n with
  | ofNat m => exact Code.break_not_mem_natural m
  | negSucc m =>
    have digits := Code.break_not_mem_natural (m + 1)
    change '\n' ∉ ("-" ++ toString (m + 1)).toList
    rw [String.toList_append,List.mem_append]
    rintro (sign | digit)
    · exact absurd sign (by decide)
    · exact digits digit

theorem lasts_settle {render : Renderer} {tree : Tree} {value : Tally}
    (tallies : tree.Tallies (kind · .number) value) (rendered : Lasts (Steady table kind least) (render true tree) fun _ _ => True) :
    Lasts (Steady table kind least) (settle render tree) fun _ result => result.Tallies (kind · .number) value := by
  unfold settle
  refine lasts_bind_fact lasts_get fun emitter _ => ?_
  split
  · rename_i folds
    have simple : tree.isSimple = true := ((Bool.and_eq_true _ _).mp folds).2
    obtain ⟨x,n,evaluated,holds,small,rfl⟩ := tallies.evaluate simple
    rw [evaluated]
    refine lasts_bind (lasts_unfolded rendered) fun code => lasts_pure fun later _ => ?_
    split
    · exact .number holds small
    · exact tallies
  · exact lasts_pure fun _ => tallies

theorem lasts_offset {left : Tree} {op : Arith} (additive : op = .add ∨ op = .sub) {x : Float} {m : Nat}
    (holds : Holds x m) (small : m < 2 ^ 53) {result : Symbols → String → Prop}
    (lasts : Lasts (Steady table kind least) (operand (render depth) (.arith op) false left) result) :
    Lasts (Steady table kind least) (arithmetic (render depth) left op (.number x))
      fun later text => ∃ first, result later first ∧ text = first ++ op.symbol ++ toString m := by
  have written : Number.code x = toString m := code_whole holds (by omega)
  have above : ¬x < 0 := by
    rw [lt_zero_iff holds (by omega)]
    omega
  have unwrapped (modern : Bool) : (Tree.number x).isWrapped modern (.arith op) true = false := by
    simp [Tree.isWrapped,above]
  have right : Lasts (Steady table kind least) (operand (render depth) (.arith op) true (.number x))
      fun _ text => text = toString m := by
    unfold operand
    rw [settle_of_plain rfl,pure_bind]
    refine lasts_bind (lasts_number depth true x) fun code => ?_
    refine lasts_bind_fact lasts_get fun emitter _ => lasts_pure fun later same => ?_
    rw [unwrapped,if_neg (by decide),same,written]
  unfold arithmetic
  refine lasts_bind_fact lasts_get fun emitter _ => ?_
  rcases additive with rfl | rfl
  · refine lasts_bind lasts fun first => lasts_bind right fun second => lasts_pure fun later same known => ?_
    exact ⟨first, known, by rw [same]⟩
  · refine lasts_bind lasts fun first => lasts_bind right fun second => lasts_pure fun later same known => ?_
    exact ⟨first, known, by rw [same]⟩

theorem lasts_tally {tree : Tree} {value : Tally} (tallies : tree.Tallies (kind · .number) value) :
    Lasts (Steady table kind least) (render depth settled tree) (Worth value) := by
  induction depth generalizing settled tree value with
  | zero => exact lasts_throw _
  | succ depth lower =>
    have rendered {tree : Tree} {value : Tally} (tallies : tree.Tallies (kind · .number) value) :
        Lasts (Steady table kind least) (render depth true tree) fun _ _ => True :=
      (lower true tallies).mono fun _ _ _ => trivial
    have again {tree : Tree} {value : Tally} (tallies : tree.Tallies (kind · .number) value) :
        Lasts (Steady table kind least) (settle (render depth) tree >>= render depth true) (Worth value) :=
      lasts_bind_fact (lasts_settle tallies (rendered tallies)) fun result known => lower true known
    have first {tree : Tree} {value : Tally} (tallies : tree.Tallies (kind · .number) value) {op : Arith}
        (additive : op = .add ∨ op = .sub) :
        Lasts (Steady table kind least) (operand (render depth) (.arith op) false tree) (Worth value) := by
      refine lasts_bind_fact (lasts_settle tallies (rendered tallies)) fun result known => ?_
      refine lasts_bind (lower true known) fun code => ?_
      refine lasts_bind_fact lasts_get fun emitter _ => lasts_pure fun later worth => ?_
      rwa [known.not_wrapped _ additive,if_neg (by decide)]
    have unbroken {text : String} (start : '\n' ∉ text.toList) {op : Arith} (additive : op = .add ∨ op = .sub) (m : Nat) :
        '\n' ∉ (text ++ op.symbol ++ toString m).toList := by
      have digits := Code.break_not_mem_natural m
      rcases additive with rfl | rfl <;>
        simp only [String.toList_append,List.mem_append,start,digits,or_false,false_or] <;> decide
    have self := tallies
    cases tallies with
    | @number x n holds small =>
      have written := code_whole holds small
      refine (lasts_number (depth + 1) settled x).mono fun later text same => ?_
      rw [same,written]
      exact ⟨break_not_mem_integer n, .literal n, rfl, fun _ => rfl⟩
    | @var name known =>
      refine (lasts_var (depth + 1) settled known).mono fun later text same => ?_
      rw [same.1]
      exact ⟨break_not_mem_code later name, .scalar (later.home name), rfl, fun _ => rfl⟩
    | @add left value x m tallies holds small exact =>
      cases settled with
      | false => exact again self
      | true =>
        refine (lasts_offset depth (.inl rfl) holds small (first tallies (.inl rfl))).mono ?_
        rintro later text ⟨_,⟨start,amount,rfl,valued⟩,rfl⟩
        exact ⟨unbroken start (.inl rfl) m, .plus amount m, rfl, fun memory => congrArg (· + (m : Int)) (valued memory)⟩
    | @sub left value x m tallies holds small exact =>
      cases settled with
      | false => exact again self
      | true =>
        refine (lasts_offset depth (.inr rfl) holds small (first tallies (.inr rfl))).mono ?_
        rintro later text ⟨_,⟨start,amount,rfl,valued⟩,rfl⟩
        exact ⟨unbroken start (.inr rfl) m, .minus amount m, rfl, fun memory => congrArg (· - (m : Int)) (valued memory)⟩

/-! ### Counted loops -/

/-- The head of a loop counts through a range, once variables have their places. -/
def Counts (head : Head) (later : Symbols) (inclusive : Bool) (first last : Tally) (step : Int) : Prop :=
  ∀ memory : Memory, head.values memory =
    spanned inclusive (first fun name => memory.scalars (later.home name)) (last fun name => memory.scalars (later.home name)) step

/-- The text is the head of a loop over a range. -/
def Heads (counter : String) (inclusive : Bool) (first last : Tally) (step : Int) (later : Symbols)
    (text : String) : Prop :=
  '\n' ∉ text.toList ∧ ∃ head : Head, text = head.code (later.home counter) ∧ Counts head later inclusive first last step

theorem heads_of_worth {later : Symbols} (counter : String) {start stop tail : String} {inclusive : Bool}
    {first last : Tally} {step : Int} {given : Option Amount} (started : Worth first later start)
    (stopped : Worth (fun values => if inclusive then last values else if step < 0 then last values + 1 else last values - 1)
      later stop)
    (whole : '\n' ∉ tail.toList) (written : tail = match given with | none => "" | some amount => "," ++ amount.code)
    (stepped : ∀ memory : Memory, (given.map (·.value memory)).getD 1 = step) :
    Heads counter inclusive first last step later
      ("For(" ++ (later.home counter).code ++ "," ++ start ++ "," ++ stop ++ tail) := by
  obtain ⟨wholeStart,low,rfl,lowValue⟩ := started
  obtain ⟨wholeStop,high,rfl,highValue⟩ := stopped
  have place := break_not_mem_code later counter
  refine ⟨?_, ⟨low, high, given⟩, congrArg _ written, fun memory => ?_⟩
  · simp only [String.toList_append,List.mem_append,place,wholeStart,wholeStop,whole,or_false]
    decide
  · rw [Head.values,lowValue,highValue,stepped]
    cases inclusive with
    | true => rfl
    | false => exact (spanned_exclusive _ _ _).symm

theorem lasts_countedLoop (number : kind counter .number) (tallies : range.Tallies (kind · .number) first last step) :
    Lasts (Steady table kind least) (countedLoop (render depth) (.var counter) range)
      fun later text => later.Houses counter ∧ Heads counter range.inclusive first last step later text := by
  unfold countedLoop
  refine lasts_bind (lasts_var depth false number) fun place => ?_
  refine lasts_bind (lasts_tally depth false tallies.start) fun start => ?_
  refine lasts_bind (lasts_tally depth false tallies.lastValue) fun stop => ?_
  have rendered : Lasts (Steady table kind least) (render depth true range.step) fun _ _ => True :=
    (lasts_tally depth true tallies.step).mono fun _ _ _ => trivial
  refine lasts_bind_fact (lasts_settle tallies.step rendered) fun result known => ?_
  dsimp only
  split
  · rename_i one
    have unit : step = 1 := congrFun (known.eq_one one) fun _ => 0
    refine lasts_pure fun later stopped started placed => ⟨placed.2, ?_⟩
    have heads := @heads_of_worth later counter start stop "" _ _ _ _ none started stopped (by decide) rfl fun _ => unit.symm
    rwa [String.append_empty,← placed.1] at heads
  · refine lasts_bind (lasts_tally depth true known) fun code => lasts_pure fun later stepped stopped started placed => ⟨placed.2, ?_⟩
    obtain ⟨whole,amount,written,valued⟩ := stepped
    have comma : '\n' ∉ ("," ++ code).toList := by
      rw [String.toList_append,List.mem_append]
      rintro (mark | inside)
      · exact absurd mark (by decide)
      · exact whole inside
    have heads := @heads_of_worth later counter start stop ("," ++ code) _ _ _ _ (some amount) started stopped comma
      (by rw [written]) valued
    rwa [← String.append_assoc,← placed.1] at heads

/-- The text is a loop that counts through a range, around the code of the body. -/
def CountedText (depth : Nat) (counter : String) (body : Tree) (inclusive : Bool) (first last : Tally)
    (step : Int) (after : Emitter) (text : String) : Prop :=
  ∃ code middle, outcome (render depth false body) middle = (.ok code, after) ∧
    ∃ head closed, lines text = (Routine.overRange (after.symbols.home counter) head closed).lines (lines code) ∧
      Counts head after.symbols inclusive first last step

theorem leads_forEach (number : kind counter .number) (isRange : collection.range? = some range)
    (simple : range.hasSimpleBounds = true) (tallies : range.Tallies (kind · .number) first last step) :
    Leads (Steady table kind least) (forEach (render depth) (.var counter) collection body)
      (CountedText depth counter body range.inclusive first last step) := by
  have constant : collection.range?.filter Range.hasSimpleBounds = some range := by
    rw [isRange]
    simp [simple]
  unfold forEach
  rw [constant]
  refine leads_bind (lasts_countedLoop depth number tallies) fun header => ?_
  refine (leads_last (keeps_render depth false body) _).mono ?_
  rintro after text ⟨code,middle,rendered,rfl⟩ ⟨_,whole,head,rfl,values⟩
  refine ⟨code, middle, rendered, head, body.isLoneConditional, ?_, values⟩
  generalize body.isLoneConditional = closed
  have parted : head.code (after.symbols.home counter) ++ (if closed = true then ")\n" else "\n") ++ code ++ "\nEnd" =
      (head.code (after.symbols.home counter) ++ if closed = true then ")" else "") ++ "\n" ++ code ++ "\n" ++ "End" := by
    rw [← String.toList_inj]
    cases closed <;> simp
  have header : lines (head.code (after.symbols.home counter) ++ if closed = true then ")" else "") =
      [head.code (after.symbols.home counter) ++ if closed = true then ")" else ""] := by
    refine Code.lines_singleton (by simp [Head.code]) ?_
    rw [String.toList_append,List.mem_append]
    rintro (inside | mark)
    · exact whole inside
    · cases closed <;> simp at mark
  have ending : lines "End" = ["End"] := by cbv
  rw [parted,Code.lines_break,Code.lines_break,header,ending]
  rfl

/-! ### Stores -/

theorem lasts_takeType (number : kind name .number) {value : Tree}
    (valued : ∀ symbols, Typed table kind least symbols → value.type symbols = .number) :
    Lasts (Steady table kind least) (takeType (.var name) value) fun _ _ => True := by
  intro emitter _ after typed done
  have updated : outcome (takeType (.var name) value) emitter =
    (.ok (), { emitter with symbols := emitter.symbols.setType name (value.type emitter.symbols) }) := rfl
  rw [updated,valued emitter.symbols typed] at done
  cases done
  refine ⟨⟨typed.functions, typed.listed, fun other type known => ?_, typed.fresh⟩,
    (setType_extends emitter.symbols name .number).grows, fun _ _ => trivial⟩
  have before := typed.typed other type known
  by_cases same : name.toLower = other.toLower
  · have alike := type_of_lower emitter.symbols same
    rw [type_of_lower _ same.symm,type_setType_self,← before,← alike,typed.typed name .number number]
    split <;> rfl
  · exact (type_setType _ same _).trans before

theorem lasts_store {render : Renderer} {target value : Tree} {source place : Symbols → String → Prop}
    (valued : Lasts (Steady table kind least) (render false value) source)
    (placed : Lasts (Steady table kind least) (render false target) place) :
    Lasts (Steady table kind least) (store render target value) fun later text =>
      ∃ first second, source later first ∧ place later second ∧ text = Code.trimClosers first ++ "→" ++ second :=
  lasts_bind valued fun first => lasts_bind placed fun second =>
    lasts_pure fun _ isPlace isSource => ⟨first, second, isSource, isPlace, rfl⟩

/-! ### Filled lists -/

/-- Before a list is filled: some names written in source are numbers, and so are the
temporaries to come. -/
structure Opening (table : FunctionTable) (scalar : String → Prop) (symbols : Symbols) : Prop where
  functions : symbols.functions = table
  listed : [overflowList] <+: symbols.lists
  scalars : ∀ name, scalar name → symbols.type name = .number ∧ name.toList.head? ≠ some '@'
  fresh : ∀ k, symbols.temporaries ≤ k → symbols.type (temporaryName k) = .number

/-- The types once a list is to be filled: a temporary is a list, and all later ones are
numbers. -/
def filledKind (scalar : String → Prop) (k : Nat) (name : String) (type : ValueType) : Prop :=
  type = .number ∧ (scalar name ∨ ∃ j, k < j ∧ name = temporaryName j) ∨ type = .list ∧ name = temporaryName k

/-- Three temporaries, of which the first becomes a list. -/
def openedList (symbols : Symbols) : Symbols :=
  symbols.temporary.2.temporary.2.temporary.2.setType (temporaryName symbols.temporaries) .list

theorem temporaryName_ne_toLower (written : name.toList.head? ≠ some '@') (k : Nat) :
    (temporaryName k).toLower ≠ name.toLower := by
  intro same
  rw [toLower_temporaryName] at same
  have chars := congrArg (·.toList.head?) same
  have first : (temporaryName k).toList.head? = some '@' := by
    rw [temporaryName,String.toList_append]
    rfl
  rw [first,String.toLower,String.toList_map,List.head?_map] at chars
  obtain ⟨c,isHead,lower⟩ := Option.map_eq_some_iff.mp chars.symm
  have unchanged : c = '@' := by
    by_cases capital : 65 ≤ c.toNat ∧ c.toNat ≤ 90
    · have each : ∀ code < 91, 65 ≤ code → (Char.ofNat code).toLower ≠ '@' := by decide
      exact absurd lower (by simpa only [Char.ofNat_toNat] using each c.toNat (by omega) capital.1)
    · rwa [Lexeme.toLower_of_code capital] at lower
  exact written (unchanged ▸ isHead)

theorem typed_openedList {symbols : Symbols} (opening : Opening table scalar symbols) :
    Typed table (filledKind scalar symbols.temporaries) (symbols.temporaries + 3) (openedList symbols) := by
  have types (name : String) : symbols.temporary.2.temporary.2.temporary.2.type name = symbols.type name := by
    rw [type_temporary,type_temporary,type_temporary]
  have edits : Edits symbols (openedList symbols) :=
    .tail (.tail (.tail (.tail .refl (.temporary _)) (.temporary _)) (.temporary _)) (.setType _ _ _)
  refine ⟨edits.functions.trans opening.functions, opening.listed.trans (extends_of_emit _ _ edits).grows.lists, ?_, ?_⟩
  · rintro name type (⟨rfl,source | ⟨k,later,rfl⟩⟩ | ⟨rfl,rfl⟩)
    · obtain ⟨number,written⟩ := opening.scalars name source
      exact (type_setType _ (temporaryName_ne_toLower written _) _).trans ((types name).trans number)
    · have apart : (temporaryName symbols.temporaries).toLower ≠ (temporaryName k).toLower := by
        rw [toLower_temporaryName,toLower_temporaryName]
        intro same
        have equal := temporaryName_injective same
        omega
      exact (type_setType _ apart _).trans ((types _).trans (opening.fresh k (by omega)))
    · have known : ( Symbols.entry? symbols.temporary.2.temporary.2.temporary.2 (temporaryName symbols.temporaries)).isSome = true := by
        rw [isSome_entry?_temporary,isSome_entry?_temporary,isSome_entry?_temporary]
        simp
      rw [openedList,type_setType_self,if_pos known]
  · have counted := temporaries_temporary
    change _ ≤ symbols.temporary.2.temporary.2.temporary.2.temporaries
    rw [counted,counted,counted]

/-- The loop that fills a list, once its temporaries have their types. -/
def fillOpened (render : Renderer) (list count counter : String) (range : Range) : Emit String := do
  let create ← store render (.var list) (.list [.number 0])
  let reset ← storeTyped render (.var count) (.number 0)
  let header ← countedLoop render (.var counter) range
  let next ← storeTyped render (.var count) (.arith (.var count) .add (.number 1))
  let fill ← storeTyped render (.element (.var list) (.var count)) (.var counter)
  return "\n".intercalate [create, reset, header, Code.joinLines [next, fill], "End"]

theorem outcome_fillList (render : Renderer) (range : Range) (emitter : Emitter) :
    let k := emitter.symbols.temporaries
    outcome (fillList render range) emitter =
      outcome (fillOpened render (temporaryName k) (temporaryName (k + 1)) (temporaryName (k + 2)) range >>= fun setup =>
        pure (setup, .var (temporaryName k))) { emitter with symbols := openedList emitter.symbols } := by
  intro k
  have named (emitter : Emitter) : outcome temporary emitter =
    (.ok (temporaryName emitter.symbols.temporaries), { emitter with symbols := emitter.symbols.temporary.2 }) := rfl
  unfold fillList fillOpened
  rw [outcome_bind_ok (named _),outcome_bind_ok (named _),outcome_bind_ok (named _)]
  simp only [temporaries_temporary,bind_assoc,pure_bind]
  rfl

theorem lasts_singleZero : Lasts (Steady table kind least) (render depth false (.list [.number 0]))
    fun _ text => text = braced (toString (0 : Int)) := by
  cases depth with
  | zero => exact lasts_throw _
  | succ depth =>
    have zero : Number.code 0 = toString (0 : Int) := code_whole holds_zero (by decide)
    have item : Lasts (Steady table kind least) (listItem (render depth) (.number 0)) fun _ text => text = toString (0 : Int) :=
      (lasts_number depth false 0).mono fun _ _ same => same.trans zero
    refine lasts_bind (lasts_mapM_singleton item) fun codes => lasts_pure ?_
    rintro later ⟨_,rfl,rfl⟩
    rw [String.intercalate_singleton]

theorem lasts_element {index : String} (isList : kind list .list) (isIndex : kind index .number) :
    Lasts (Steady table kind least) (render depth false (.element (.var list) (.var index))) fun later text =>
      text = "∟" ++ (later.listName list).1 ++ "(" ++ (later.home index).code ++ ")" := by
  cases depth with
  | zero => exact lasts_throw _
  | succ depth =>
    refine lasts_bind (lasts_listVar depth false isList) fun first => ?_
    refine lasts_bind (lasts_var depth false isIndex) fun second => lasts_pure fun later placed listed => ?_
    rw [listed,placed.1]

theorem lasts_next (number : kind count .number) :
    Lasts (Steady table kind least) (render depth false (.arith (.var count) .add (.number 1))) fun later text =>
      text = (Amount.plus (.scalar (later.home count)) 1).code := by
  cases depth with
  | zero => exact lasts_throw _
  | succ depth =>
    change Lasts _ (settle (render depth) (.arith (.var count) .add (.number 1)) >>= render depth true) _
    rw [settle_of_plain rfl,pure_bind]
    cases depth with
    | zero => exact lasts_throw _
    | succ depth =>
      have first : Lasts (Steady table kind least) (operand (render depth) (.arith .add) false (.var count)) fun later text =>
          text = (later.home count).code := by
        unfold operand
        rw [settle_of_plain rfl,pure_bind]
        refine lasts_bind (lasts_var depth true number) fun code => ?_
        refine lasts_bind_fact lasts_get fun emitter _ => lasts_pure fun later placed => ?_
        rw [placed.1]
        rfl
      refine (lasts_offset depth (.inl rfl) (m := 1) holds_one (by decide) first).mono ?_
      rintro later text ⟨_,rfl,rfl⟩
      rfl

theorem lasts_fillOpened (isList : kind list .list) (isCount : kind count .number) (isCounter : kind counter .number)
    (tallies : range.Tallies (kind · .number) first last step) :
    Lasts (Steady table kind least) (fillOpened (render depth) list count counter range) fun later setup =>
      later.Houses count ∧ ∃ head : Head,
        (∀ body, lines setup = (Routine.fill ("∟" ++ (later.listName list).1) (later.home count)
          (later.home counter) head).lines body) ∧ Counts head later range.inclusive first last step := by
  have numeric : ∀ symbols, Typed table kind least symbols →
      (Tree.arith (.var count) .add (.number 1)).type symbols = .number := by
    intro symbols typed
    have counted := typed.typed count .number isCount
    simp [Tree.type,counted]
  unfold fillOpened
  refine lasts_bind (lasts_store (lasts_singleZero depth) (lasts_listVar depth false isList)) fun create => ?_
  refine lasts_bind (lasts_bind_fact (lasts_takeType isCount fun _ _ => rfl) fun _ _ =>
    lasts_store (lasts_number depth false 0) (lasts_var depth false isCount)) fun reset => ?_
  refine lasts_bind (lasts_countedLoop depth isCounter tallies) fun header => ?_
  refine lasts_bind (lasts_bind_fact (lasts_takeType isCount numeric) fun _ _ =>
    lasts_store (lasts_next depth isCount) (lasts_var depth false isCount)) fun next => ?_
  refine lasts_bind (lasts_store (lasts_var depth false isCounter) (lasts_element depth isList isCount)) fun fill => ?_
  refine lasts_pure ?_
  rintro later ⟨_,_,⟨rfl,_⟩,rfl,rfl⟩ ⟨_,_,rfl,⟨rfl,_⟩,rfl⟩ ⟨_,whole,head,rfl,values⟩ ⟨_,_,rfl,⟨rfl,housed⟩,rfl⟩ ⟨_,_,rfl,rfl,rfl⟩
  have zero : Number.code 0 = toString (0 : Int) := code_whole holds_zero (by decide)
  have listed := break_not_mem_listName later list
  have counted := break_not_mem_code later count
  have counting := break_not_mem_code later counter
  have ending : lines "End" = ["End"] := by cbv
  have create := @lines_store (braced (toString (0 : Int))) ("∟" ++ (later.listName list).1) (by decide) listed
  have reset := @lines_store (toString (0 : Int)) (later.home count).code (by decide) counted
  have next := @lines_store (Amount.plus (.scalar (later.home count)) 1).code (later.home count).code
    (by simp only [Amount.code,String.toList_append,List.mem_append,counted,false_or]; decide) counted
  have fill := @lines_store (later.home counter).code
    ("∟" ++ (later.listName list).1 ++ "(" ++ (later.home count).code ++ ")") counting
    (by rw [String.toList_append,String.toList_append,String.toList_append]; simp only [List.mem_append,listed,counted,or_false,false_or]; decide)
  have headed := Code.lines_singleton (by simp [Head.code]) whole
  refine ⟨housed, head, fun body => ?_, values⟩
  rw [Code.lines_intercalate,zero]
  simp only [List.flatMap_cons,List.flatMap_nil,List.append_nil,Code.lines_joinLines,ending,create,reset,headed,next,fill]
  simp only [Routine.fill,Routine.lines,Amount.code,String.append_assoc,List.cons_append,List.nil_append,
    Bool.false_eq_true,if_false,String.append_empty]

theorem lasts_temporary (named : ∀ k, least ≤ k → kind (temporaryName k) .number) :
    Lasts (Steady table kind least) temporary fun _ name => kind name .number := by
  intro emitter name after typed done
  cases done
  have edit := Edit.temporary emitter.symbols
  have grown := (temporary_extends emitter.symbols).grows
  exact ⟨⟨edit.functions.trans typed.functions, typed.listed.trans grown.lists,
    fun other type known => (type_temporary emitter.symbols other).trans (typed.typed other type known),
    Nat.le_trans typed.fresh edit.temporaries⟩, grown, fun _ _ => named _ typed.fresh⟩

/-! ### Loops over filled lists -/

theorem find?_array_length (free : table.user? "array_length" = none) :
    ∃ f : Builtin, table.find? "array_length" = some (.builtin f) ∧ f.expansion = none ∧ f.arity = .exactly [1] ∧
      f.target = "dim" ∧ f.parens = true ∧ f.returns = some .number := by
  have entry : (Builtin.find? "array_length").map (fun f => (f.expansion, f.arity, f.target, f.parens, f.returns)) =
      some (none, .exactly [1], "dim", true, some .number) := by cbv
  obtain ⟨f,found,facts⟩ := Option.map_eq_some_iff.mp entry
  simp only [Prod.mk.injEq] at facts
  exact ⟨f, by rw [FunctionTable.find?,free,found]; rfl, facts⟩

theorem lasts_length (free : table.user? "array_length" = none) (isList : kind list .list) :
    Lasts (Steady table kind least) (render depth false (Tree.callOf "array_length" [.var list] 0)) fun later text =>
      text = (Amount.length ("∟" ++ (later.listName list).1)).code := by
  obtain ⟨f,found,noExpansion,arity,target,parens,_⟩ := find?_array_length free
  have lower : "array_length".toLower = "array_length" := by cbv
  cases depth with
  | zero => exact lasts_throw _
  | succ depth =>
    rw [Tree.callOf,lower]
    change Lasts _ (call (render depth) "array_length" [.var list] 0) _
    unfold call
    refine lasts_bind_fact lasts_get fun emitter typed => ?_
    have known : emitter.symbols.functions.find? "array_length" = some (.builtin f) := by rw [typed.functions,found]
    have accepted : f.arity.accepts [Tree.var list].length = true := by
      rw [arity]
      rfl
    rw [known]
    dsimp only
    unfold builtinCall
    rw [noExpansion,accepted,target,parens]
    refine lasts_bind (lasts_mapM_singleton (lasts_listVar depth false isList)) fun codes => lasts_pure ?_
    rintro later ⟨_,rfl,rfl⟩
    rw [String.intercalate_singleton]
    rfl

/-- The loop over a list, after the code that prepares the list. -/
def overPrepared (render : Renderer) (counter : Tree) (body : Tree) (prepared : String × Tree) : Emit String := do
  let length := Tree.var (← temporary)
  let index := Tree.var (← temporary)
  let measure ← storeTyped render length (Tree.callOf "array_length" [prepared.2] 0)
  let place ← render false index
  let bound ← render false length
  let load ← assign render counter .set (.element prepared.2 index) 0
  let code ← render false body
  return Code.joinLines [prepared.1, measure, "For(" ++ place ++ ",1," ++ bound, load, code, "End"]

theorem leads_overPrepared (free : table.user? "array_length" = none) (named : ∀ k, least ≤ k → kind (temporaryName k) .number)
    (isList : kind list .list) (isCounter : kind counter .number) (setup : String) (body : Tree) :
    Leads (Steady table kind least) (overPrepared (render depth) (.var counter) body (setup, .var list)) fun after text =>
      ∃ code middle, outcome (render depth false body) middle = (.ok code, after) ∧ ∃ length index : Slot,
        lines text = lines setup ++ (Routine.overList ("∟" ++ (after.symbols.listName list).1) length index
          (after.symbols.home counter)).lines (lines code) := by
  have numeric : ∀ symbols, Typed table kind least symbols →
      (Tree.callOf "array_length" [.var list] 0).type symbols = .number := by
    intro symbols typed
    obtain ⟨f,found,_,_,_,_,returns⟩ := find?_array_length free
    have lower : "array_length".toLower = "array_length" := by cbv
    rw [Tree.callOf,lower,Tree.type,FunctionTable.returnType,typed.functions,found]
    dsimp only
    rw [returns,Option.getD_some]
  unfold overPrepared
  refine leads_bind_fact (lasts_temporary named) fun length isLength => ?_
  refine leads_bind_fact (lasts_temporary named) fun index isIndex => ?_
  refine leads_bind (lasts_bind_fact (lasts_takeType isLength numeric) fun _ _ =>
    lasts_store (lasts_length depth free isList) (lasts_var depth false isLength)) fun measure => ?_
  refine leads_bind (lasts_var depth false isIndex) fun place => ?_
  refine leads_bind (lasts_var depth false isLength) fun bound => ?_
  refine leads_bind (lasts_bind_fact (lasts_takeType isCounter fun _ _ => rfl) fun _ _ =>
    lasts_store (lasts_element depth isList isIndex) (lasts_var depth false isCounter)) fun load => ?_
  refine (leads_last (keeps_render depth false body) _).mono ?_
  rintro after text ⟨code,middle,rendered,rfl⟩ ⟨_,_,rfl,⟨rfl,_⟩,rfl⟩ ⟨rfl,_⟩ ⟨rfl,_⟩ ⟨_,_,rfl,⟨rfl,_⟩,rfl⟩
  refine ⟨code, middle, rendered, after.symbols.home length, after.symbols.home index, ?_⟩
  have listed := break_not_mem_listName after.symbols list
  have measured := break_not_mem_code after.symbols length
  have indexed := break_not_mem_code after.symbols index
  have ending : lines "End" = ["End"] := by cbv
  have measure := @lines_store (Amount.length ("∟" ++ (after.symbols.listName list).1)).code
    (after.symbols.home length).code
    (by rw [Amount.code,String.toList_append,String.toList_append]; simp only [List.mem_append,listed,or_false]; decide) measured
  have load := @lines_store ("∟" ++ (after.symbols.listName list).1 ++ "(" ++ (after.symbols.home index).code ++ ")")
    (after.symbols.home counter).code
    (by rw [String.toList_append,String.toList_append,String.toList_append]
        simp only [List.mem_append,listed,indexed,or_false,false_or]
        decide) (break_not_mem_code after.symbols counter)
  have header : lines ("For(" ++ (after.symbols.home index).code ++ ",1," ++ (after.symbols.home length).code) =
      ["For(" ++ (after.symbols.home index).code ++ ",1," ++ (after.symbols.home length).code] := by
    refine Code.lines_singleton (by simp) ?_
    simp only [String.toList_append,List.mem_append,indexed,measured,or_false]
    decide
  have written : Head.code ⟨.literal 1, .scalar (after.symbols.home length), none⟩ (after.symbols.home index) =
      "For(" ++ (after.symbols.home index).code ++ ",1," ++ (after.symbols.home length).code := by
    have one : Int.repr 1 = "1" := rfl
    rw [← String.toList_inj]
    simp [Head.code,Amount.code,one]
  rw [Code.lines_joinLines]
  simp only [List.flatMap_cons,List.flatMap_nil,List.append_nil,ending,measure,header,load]
  simp only [Routine.overList,Routine.lines,written,Amount.code,List.cons_append,List.nil_append,
    Bool.false_eq_true,if_false,String.append_empty]

/-- The text fills a list with a range and runs over the list, around the code of the
body. The count of the elements has a place of its own. -/
def FilledText (scalar : String → Prop) (depth : Nat) (counter : String) (body : Tree) (inclusive : Bool)
    (first last : Tally) (step : Int) (after : Emitter) (text : String) : Prop :=
  ∃ code middle, outcome (render depth false body) middle = (.ok code, after) ∧
    ∃ (list : String) (count ticker length index : Slot) (head : Head),
      lines text = (Routine.seq (.fill list count ticker head)
        (.overList list length index (after.symbols.home counter))).lines (lines code) ∧
      count ≠ ticker ∧ (∀ name, scalar name → after.symbols.home name ≠ count) ∧
      Counts head after.symbols inclusive first last step

theorem filled_forEach (opening : Opening table scalar emitter.symbols)
    (free : table.user? "array_length" = none) (depth : Nat) (isCounter : scalar counter) {text : String}
    (isRange : collection.range? = some range) (varies : range.hasSimpleBounds = false)
    (tallies : range.Tallies scalar first last step)
    (done : outcome (forEach (render depth) (.var counter) collection body) emitter = (.ok text, after)) :
    FilledText scalar depth counter body range.inclusive first last step after text := by
  obtain ⟨symbols,modern,folding,program,inlining⟩ := emitter
  let k := symbols.temporaries
  let kind := filledKind scalar k
  have typed : Typed table kind (k + 3) (openedList symbols) := typed_openedList opening
  have isList : kind (temporaryName k) .list := .inr ⟨rfl, rfl⟩
  have isNumber {j : Nat} (later : k < j) : kind (temporaryName j) .number := .inl ⟨rfl, .inr ⟨j, later, rfl⟩⟩
  have known : ∀ name, scalar name → kind name .number := fun name source => .inl ⟨rfl, .inl source⟩
  have numbers : range.Tallies (kind · .number) first last step :=
    { tallies with start := tallies.start.mono known, stop := tallies.stop.mono known, step := tallies.step.mono known }
  have listed : collection.range?.filter Range.hasSimpleBounds = none := by
    rw [isRange]
    simp [varies]
  have filling : listLoop (render depth) (.var counter) collection body =
      fillList (render depth) range >>= overPrepared (render depth) (.var counter) body := by
    change loopList (render depth) collection >>= overPrepared _ _ _ = _
    unfold loopList
    rw [isRange]
  unfold forEach at done
  rw [listed] at done
  dsimp only at done
  rw [filling,outcome_bind,outcome_fillList,← outcome_bind,bind_assoc] at done
  simp only [pure_bind] at done
  have fresh : ∀ j, k + 3 ≤ j → kind (temporaryName j) .number := fun j later => isNumber (by omega)
  have apart {j : Nat} (other : j ≠ k + 1) : (temporaryName j).toLower ≠ (temporaryName (k + 1)).toLower := by
    rw [toLower_temporaryName,toLower_temporaryName]
    exact fun same => other (temporaryName_injective same)
  have opened : Lasts (Steady table kind (k + 3)) (fillOpened (render depth) (temporaryName k) (temporaryName (k + 1))
    (temporaryName (k + 2)) range) _ := lasts_fillOpened depth isList (isNumber (by omega)) (isNumber (by omega)) numbers
  suffices leads : Leads (Steady table kind (k + 3)) _ (FilledText scalar depth counter body range.inclusive first last step)
    from (leads _ text after typed done).2
  refine leads_bind opened fun setup => ?_
  refine (leads_overPrepared depth free fresh isList (known counter isCounter) setup body).mono ?_
  rintro after text ⟨code,middle,rendered,length,index,laid⟩ ⟨housed,head,filled,values⟩
  refine ⟨code, middle, rendered, "∟" ++ (after.symbols.listName (temporaryName k)).1,
    after.symbols.home (temporaryName (k + 1)), after.symbols.home (temporaryName (k + 2)), length, index, head, ?_, ?_,
    fun name source same => ?_, values⟩
  · rw [laid,filled (lines code)]
    rfl
  · exact fun same => apart (Nat.succ_ne_self (k + 1)) ((housed _).mp same.symm)
  · exact temporaryName_ne_toLower (opening.scalars name source).2 (k + 1) ((housed name).mp same).symm

end Emit

/-! ### Both loops -/

/-- The literal of a whole number. A negative one is read as a difference from zero. -/
def Tree.IsWhole (tree : Tree) (n : Int) : Prop :=
  (∃ x, tree = .number x ∧ Holds x n) ∨
    ∃ x, ∃ m : Nat, tree = .arith (.number 0) .sub (.number x) ∧ Holds x m ∧ n = -m

namespace Tree.IsWhole

variable {tree : Tree} {n : Int} (whole : tree.IsWhole n)
include whole

theorem isSimple : tree.isSimple = true := by
  rcases whole with ⟨x,rfl,_⟩ | ⟨x,m,rfl,_⟩ <;> rfl

theorem tallies (small : n.natAbs < 2 ^ 53) (scalar : String → Prop) : tree.Tallies scalar fun _ => n := by
  rcases whole with ⟨x,rfl,holds⟩ | ⟨x,m,rfl,holds,rfl⟩
  · exact .number holds small
  · have difference : (0 : Int) - m = -m := Int.zero_sub _
    have sub := @Tallies.sub scalar (.number 0) (fun _ => 0) x m (.number holds_zero (by decide)) holds (by omega)
      fun _ _ => by omega
    rwa [difference] at sub

end Tree.IsWhole

open CalcBasic.Action Emit in
/-- A loop over a range of whole numbers, with its bounds as literals and with its bounds
in variables. If the range has values, both run the body for these, in order. If it has
none, the first never runs the body and the second runs it for zero. -/
theorem loops_visit_range (range : Range) {first last step : Int} (start : range.start.IsWhole first)
    (stop : range.stop.IsWhole last) (stride : range.step.IsWhole step)
    (small : first.natAbs < 2 ^ 53 ∧ last.natAbs + 1 < 2 ^ 53 ∧ step.natAbs < 2 ^ 53)
    {literals varying body : Tree} {counter low high : String} (isLiteral : literals.range? = some range)
    (isVarying : varying.range? = some { range with start := .var low, stop := .var high })
    {emitter emitter' after after' : Emitter} {depth depth' : Nat} {settled settled' : Bool} {text text' : String}
    (number : emitter.symbols.type counter = .number) (listed : [overflowList] <+: emitter.symbols.lists)
    (opening : Opening emitter'.symbols.functions (· ∈ [counter, low, high]) emitter'.symbols)
    (free : emitter'.symbols.functions.user? "array_length" = none)
    (counted : outcome (render depth settled (.forEach (.var counter) literals body)) emitter = (.ok text, after))
    (filled : outcome (render depth' settled' (.forEach (.var counter) varying body)) emitter' = (.ok text', after')) :
    let values := spanned range.inclusive first last step
    (∃ inner code middle head closed, outcome (render inner false body) middle = (.ok code, after) ∧
      let routine := Routine.overRange (after.symbols.home counter) head closed
      lines text = routine.lines (lines code) ∧ ∀ effect memory, routine.visits effect memory = values) ∧
    ∃ inner code middle list count ticker head length index, outcome (render inner false body) middle = (.ok code, after') ∧
      let routine := Routine.seq (.fill list count ticker head) (.overList list length index (after'.symbols.home counter))
      lines text' = routine.lines (lines code) ∧ ∀ (effect : Memory → Memory) (memory : Memory),
        (∀ memory, (effect memory).lists list = memory.lists list) →
        memory.scalars (after'.symbols.home low) = first → memory.scalars (after'.symbols.home high) = last →
        routine.visits effect memory = if values = [] then [0] else values := by
  intro values
  have bounds : range.hasSimpleBounds = true := by
    simp [Range.hasSimpleBounds,start.isSimple,stop.isSimple,stride.isSimple]
  have literal : range.Tallies (fun name => name = counter ∧ ValueType.number = .number) (fun _ => first) (fun _ => last) step :=
    ⟨start.tallies small.1 _, stop.tallies (by omega) _, fun _ _ => small.2.1, stride.tallies small.2.2 _, stride.isSimple⟩
  have varied : Range.Tallies (· ∈ [counter, low, high]) { range with start := .var low, stop := .var high }
      (fun scalars => scalars low) (fun scalars => scalars high) step :=
    ⟨.var (by simp), .var (by simp), fun simple => (nomatch simple), stride.tallies small.2.2 _, stride.isSimple⟩
  constructor
  · cases depth with
    | zero => cases counted
    | succ depth =>
      have typed : Typed emitter.symbols.functions (fun name type => name = counter ∧ type = .number) 0 emitter.symbols :=
        ⟨rfl, listed, by rintro _ _ ⟨rfl,rfl⟩; exact number, Nat.zero_le _⟩
      obtain ⟨_,code,middle,rendered,head,closed,laid,counts⟩ :=
        leads_forEach depth ⟨rfl, rfl⟩ isLiteral bounds literal emitter text after typed counted
      exact ⟨depth, code, middle, head, closed, rendered, laid, fun effect memory =>
        (Routine.visits_overRange _ head closed effect memory).trans (counts memory)⟩
  · cases depth' with
    | zero => cases filled
    | succ depth =>
      have same : outcome (forEach (render depth) (.var counter) varying body) emitter' = (.ok text', after') := filled
      obtain ⟨code,middle,rendered,list,count,ticker,length,index,head,laid,apart,own,counts⟩ :=
        filled_forEach opening free depth (by simp) isVarying (by simp [Range.hasSimpleBounds,Tree.isSimple]) varied same
      refine ⟨depth, code, middle, list, count, ticker, head, length, index, rendered, laid, ?_⟩
      intro effect memory keeps isLow isHigh
      rw [Routine.visits_filled apart head length index _ keeps,counts]
      simp only [Memory.storeList_scalars, Memory.store_other _ (own low (by simp)), Memory.store_other _ (own high (by simp)), isLow, isHigh]
      rfl

open CalcBasic.Action Emit in
/-- From five down to minus one by two, without the end. -/
theorem loops_visit_five_three_one :
    let emitter : Emitter := { symbols := {}, modern := true, folding := true, program := "TIADV" }
    let minus (x : Float) := Tree.arith (.number 0) .sub (.number x)
    let literals := Tree.range (.number 5) (minus 1) (minus 2) false false
    let varying := Tree.range (.var "a") (.var "b") (minus 2) false false
    ∃ after after',
      outcome (render 9 false (.forEach (.var "v") literals (.var "v"))) emitter = (.ok "For(A,5,0,-2\nA\nEnd", after) ∧
      outcome (render 9 false (.forEach (.var "v") varying (.var "v"))) emitter =
        (.ok ("\x7b0→∟ARR1\n0→B\nFor(C,D,E+1,-2\nB+1→B\nC→∟ARR1(B)\nEnd\n" ++
          "dim(∟ARR1→F\nFor(G,1,F\n∟ARR1(G→H\nH\nEnd"), after') ∧
      (∃ head closed, ∀ effect memory,
        (Routine.overRange (after.symbols.home "v") head closed).visits effect memory = [5, 3, 1]) ∧
      ∃ list count ticker head length index, ∀ (effect : Memory → Memory) (memory : Memory),
        (∀ memory, (effect memory).lists list = memory.lists list) →
        memory.scalars (after'.symbols.home "a") = 5 → memory.scalars (after'.symbols.home "b") = -1 →
        (Routine.seq (.fill list count ticker head) (.overList list length index (after'.symbols.home "v"))).visits
          effect memory = [5, 3, 1] := by
  intro emitter minus literals varying
  have values : spanned false 5 (-1) (-2) = [5, 3, 1] := by simp [spanned,within]
  have counted : (outcome (render 9 false (.forEach (.var "v") literals (.var "v"))) emitter).1 =
      .ok "For(A,5,0,-2\nA\nEnd" := by decide +kernel
  have filled : (outcome (render 9 false (.forEach (.var "v") varying (.var "v"))) emitter).1 =
      .ok ("\x7b0→∟ARR1\n0→B\nFor(C,D,E+1,-2\nB+1→B\nC→∟ARR1(B)\nEnd\n" ++
        "dim(∟ARR1→F\nFor(G,1,F\n∟ARR1(G→H\nH\nEnd") := by decide +kernel
  have start : (Tree.number 5).IsWhole 5 := .inl ⟨5, rfl, by decide +kernel, by decide +kernel⟩
  have stop : (minus 1).IsWhole (-1) := .inr ⟨1, 1, rfl, holds_one, rfl⟩
  have stride : (minus 2).IsWhole (-2) := .inr ⟨2, 2, rfl, ⟨by decide +kernel, by decide +kernel⟩, rfl⟩
  have written : ∀ name ∈ ["v", "a", "b"], name.toList.head? ≠ some '@' := by decide
  have opening : Opening {} (· ∈ ["v", "a", "b"]) {} :=
    ⟨rfl, by decide, fun name source => ⟨rfl, written name source⟩, fun _ _ => rfl⟩
  obtain ⟨⟨_,_,_,head,closed,_,_,counts⟩,_,_,_,list,count,ticker,filling,length,index,_,_,fills⟩ :=
    loops_visit_range ⟨.number 5, minus 1, minus 2, false⟩ start stop stride (by decide) rfl rfl rfl (by decide) opening rfl
      (outcome_eq_ok counted) (outcome_eq_ok filled)
  rw [values] at counts fills
  exact ⟨_, _, outcome_eq_ok counted, outcome_eq_ok filled, ⟨head, closed, counts⟩,
    list, count, ticker, filling, length, index, fills⟩

/-- A range without values, with its bounds as literals and in variables. -/
theorem empty_range_visits_zero :
    let counting := Routine.overRange (.letter 'A') ⟨.literal 1, .literal 0, none⟩ false
    let filling := Routine.seq (.fill "∟ARR1" (.letter 'D') (.letter 'E') ⟨.scalar (.letter 'A'), .scalar (.letter 'B'), none⟩)
      (.overList "∟ARR1" (.letter 'F') (.letter 'G') (.letter 'C'))
    let stored := Routine.seq (.store (.literal 1) (.letter 'A')) (.seq (.store (.literal 0) (.letter 'B')) filling)
    (compile {} "for v in [1 to 0] \x7b print v \x7d").toOption.map (lines ·.code) = some (counting.lines ["Disp A"]) ∧
      (compile {} "a = 1; b = 0; for v in [a to b] \x7b print v \x7d").toOption.map (lines ·.code) =
        some (stored.lines ["Disp C"]) ∧
      ∀ memory, counting.visits id memory = [] ∧ stored.visits id memory = [0] := by
  intro counting filling stored
  have nothing : spanned true 1 0 1 = [] := by simp [spanned,within]
  refine ⟨by decide +kernel, by decide +kernel, fun memory => ⟨?_, ?_⟩⟩
  · exact (Routine.visits_overRange _ _ _ id memory).trans nothing
  · let bounds := (memory.store (.letter 'A') 1).store (.letter 'B') 0
    have apart : Slot.letter 'D' ≠ .letter 'E' := by decide
    have empty : Head.values ⟨.scalar (.letter 'A'), .scalar (.letter 'B'), none⟩
        ((bounds.storeList "∟ARR1" [0]).store (.letter 'D') 0) = [] := by simp [Head.values,Amount.value,bounds,nothing]
    have keeps : ∀ memory : Memory, (id memory).lists "∟ARR1" = memory.lists "∟ARR1" := fun _ => rfl
    have visited := Routine.visits_filled apart ⟨.scalar (.letter 'A'), .scalar (.letter 'B'), none⟩ (.letter 'F')
      (.letter 'G') (.letter 'C') keeps bounds
    rw [empty] at visited
    exact visited

end CalcBasic
