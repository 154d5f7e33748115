import CalcBasic.Proofs.RootStatements
import CalcBasic.Proofs.SteadyReading

/-! The order of definitions. Every function is declared before anything is read, but what
parameters it has is known only behind its definition. So statements are read alike wherever
definitions stand among them, unless a name stands before an operand and the definition of
its function, with parameters, comes first in one order and later in the other. -/
namespace CalcBasic
open List
open Token (bareNames definedNames scan)
open Shape (takesArguments)
namespace Read
open CalcBasic.Action

variable {front back : List (List Token)} {piece : List Token} {first last : Symbols} {name : String}

/-! ### Statements one after the other -/

/-- The statements are read one after the other, and each is read well. -/
inductive Trail (markUnknown : Bool) : Symbols → List (List Token) → List (Option Tree) → Symbols → Prop
  | nil (symbols : Symbols) : Trail markUnknown symbols [] [] symbols
  | cons {before middle after : Symbols} {piece : List Token} {pieces : List (List Token)} {value : Option Tree}
      {values : List (Option Tree)} (one : outcome (statement markUnknown piece) before = (.ok value, middle))
      (rest : Trail markUnknown middle pieces values after) :
      Trail markUnknown before (piece :: pieces) (value :: values) after

section Trails

variable {markUnknown : Bool} {before middle after : Symbols} {pieces : List (List Token)} {values : List (Option Tree)}

theorem trail_of_mapM (done : outcome (pieces.mapM (statement markUnknown)) before = (.ok values, after)) :
    Trail markUnknown before pieces values after := by
  induction pieces generalizing before values with
  | nil =>
    cases done
    exact .nil _
  | cons piece rest ih =>
    rw [mapM_cons] at done
    obtain ⟨value,middle,one,done⟩ := outcome_bind_eq_ok done
    obtain ⟨others,_,more,done⟩ := outcome_bind_eq_ok done
    cases done
    exact .cons one (ih more)

theorem Trail.split (trail : Trail markUnknown before (front ++ back) values after) :
    ∃ first middle second, values = first ++ second ∧ Trail markUnknown before front first middle ∧
      Trail markUnknown middle back second after := by
  induction front generalizing before values with
  | nil => exact ⟨[], before, values, rfl, .nil before, trail⟩
  | cons piece rest ih =>
    cases trail with
    | cons one more =>
      obtain ⟨first,middle,second,rfl,start,finish⟩ := ih more
      exact ⟨_, middle, second, rfl, .cons one start, finish⟩

theorem steady_again (same : Prop) (bare : String → Prop) (covered : same → ∀ name ∈ bareNames piece, bare name) :
    let scope : Scope := ⟨same, bare, (· ∈ definedNames piece), id, rfl⟩
    scope.Steady (scope.Same id) (statement markUnknown piece) (statement markUnknown piece) := by
  intro scope
  have variant := Variant.of_map scope.rewording piece
  have own : piece.map scope.write = piece := map_id piece
  have form : Option.map scope.tree = id := by
    funext value
    cases value with
    | none => rfl
    | some tree => exact congrArg some (Tree.relined_id tree)
  rw [own] at variant
  have steady := (@Scope.pairs_steady scope markUnknown).readings.statement piece ⟨covered, fun _ member => member⟩
    piece variant
  rwa [form] at steady

theorem Kept.mono {defined wider : String → Prop} (kept : Kept defined before after) (all : ∀ name, defined name → wider name) :
    Kept wider before after :=
  ⟨kept.known, fun name apart => kept.others name (mt (all _) apart)⟩

section Trails

variable (trail : Trail markUnknown before pieces values after)
include trail

theorem Trail.kept :
    Kept (· ∈ pieces.flatMap definedNames) before after := by
  induction trail with
  | nil symbols => exact .of_functions rfl
  | @cons before middle after piece pieces value values one _ ih =>
    have first := ((steady_again False (fun _ => False) (fun held => held.elim) (.refl _ before) one).2 one).2.1
    refine Kept.trans (first.mono fun name member => ?_) (ih.mono fun name member => ?_)
    · exact mem_flatMap.mpr ⟨piece, mem_cons_self, member⟩
    · obtain ⟨other,isOther,defines⟩ := mem_flatMap.mp member
      exact mem_flatMap.mpr ⟨other, mem_cons_of_mem piece isOther, defines⟩

/-- A function that no statement defines takes arguments afterwards if it did before. -/
theorem Trail.takes (apart : name.toLower ∉ pieces.flatMap definedNames) :
    takesArguments after.functions name = takesArguments before.functions name :=
  FunctionTable.takesArguments_of_find? (trail.kept.others name apart)

theorem Trail.known {names : String → Prop}
    (declared : Declared names before) (inside : ∀ name ∈ pieces.flatMap definedNames, names name) (name : String) :
    (after.functions.find? name).isSome = (before.functions.find? name).isSome := by
  by_cases isOwn : name.toLower ∈ pieces.flatMap definedNames
  · obtain ⟨f,found,_⟩ := declared.own name (inside _ isOwn)
    have known : (before.functions.find? name).isSome = true := by rw [found]; rfl
    rw [known,trail.kept.known name known]
  · rw [trail.kept.others name isOwn]

theorem Trail.relined {place : Nat → Nat} (still : place 0 = 0)
    {other : Symbols} (agree : Agree (fun _ => True) before other) :
    ∃ after', Trail markUnknown other (pieces.map (List.map (Token.relined place)))
      (values.map (Option.map (Tree.relined place))) after' ∧ Agree (fun _ => True) after after' := by
  induction trail generalizing other with
  | nil symbols => exact ⟨other, .nil other, agree⟩
  | @cons before middle after piece pieces value values one _ ih =>
    let scope : Scope := ⟨True, fun _ => True, fun _ => True, place, still⟩
    have steady := (@Scope.pairs_steady scope markUnknown).readings.statement piece
      ⟨fun _ _ _ => trivial, fun _ _ => trivial⟩ _ (Variant.of_map scope.rewording piece)
    obtain ⟨succeeds,ends⟩ := steady agree one
    obtain ⟨value',middle',one'⟩ := succeeds trivial
    obtain ⟨halfway,_,same⟩ := ends one'
    obtain ⟨after',more,final⟩ := ih halfway
    have form : value' = value.map (Tree.relined place) := same trivial
    rw [form] at one'
    exact ⟨after', .cons one' more, final⟩

end Trails

/-- Some statements are read, others are left. -/
structure Halfway (markUnknown : Bool) (first last : Symbols) (front back : List (List Token)) (middle : Symbols)
    (values : List (Option Tree)) : Prop where
  ahead : ∃ earlier, Trail markUnknown first front earlier middle
  behind : Trail markUnknown middle back values last

theorem Halfway.next (halfway : Halfway markUnknown first last front (piece :: back) middle values) :
    ∃ value later next, values = value :: later ∧ outcome (statement markUnknown piece) middle = (.ok value, next) ∧
      Halfway markUnknown first last (front ++ [piece]) back next later := by
  obtain ⟨⟨earlier,ahead⟩,behind⟩ := halfway
  cases behind with
  | @cons _ next _ _ _ value later one rest =>
    refine ⟨value, later, next, rfl, one, ⟨earlier ++ [value], ?_⟩, rest⟩
    induction ahead with
    | nil symbols => exact .cons one (.nil next)
    | cons earliest _ ih => exact .cons earliest (ih one)

theorem Halfway.value_nil (halfway : Halfway markUnknown first last front [] middle values) : values = [] := by
  cases halfway.behind
  rfl

theorem plain_of_definition (defines : isDefinition piece = true) {value : Option Tree}
    (one : outcome (statement markUnknown piece) before = (.ok value, after)) : value.toList.filter (!·.isFunction) = [] := by
  have known := (returns_statement markUnknown piece before value after trivial one).1
  refine filter_eq_nil_iff.mpr fun tree member => ?_
  rw [known tree (Option.mem_toList.mp member),defines]
  decide

theorem Halfway.pass (halfway : Halfway markUnknown first last front (piece :: back) middle values)
    (defines : isDefinition piece = true) :
    ∃ next later, Halfway markUnknown first last (front ++ [piece]) back next later ∧
      (values.flatMap Option.toList).filter (!·.isFunction) = (later.flatMap Option.toList).filter (!·.isFunction) := by
  obtain ⟨value,later,next,rfl,one,behind⟩ := halfway.next
  refine ⟨next, later, behind, ?_⟩
  rw [flatMap_cons,filter_append,plain_of_definition defines one,nil_append]

/-- Half way all is known of the functions that were defined and nothing new of the others. -/
theorem Halfway.takes (halfway : Halfway markUnknown first last front back middle values)
    (distinct : ((front ++ back).flatMap definedNames).Nodup) (name : String) :
    takesArguments middle.functions name =
      if name.toLower ∈ front.flatMap definedNames then takesArguments last.functions name
      else takesArguments first.functions name := by
  obtain ⟨⟨_,ahead⟩,behind⟩ := halfway
  rw [flatMap_append,nodup_append] at distinct
  split
  · rename_i isFront
    exact (behind.takes fun isBack => distinct.2.2 _ isFront _ isBack rfl).symm
  · rename_i apart
    exact ahead.takes apart

end Trails

/-! ### Two orders -/

/-- The same statements, with definitions at other places among them. -/
structure Reordered (pieces others : List (List Token)) : Prop where
  perm : pieces.Perm others
  order : pieces.filter (!isDefinition ·) = others.filter (!isDefinition ·)
  distinct : (pieces.flatMap definedNames).Nodup

/-- Behind both fronts the same is known of the functions whose names a statement has before
operands. -/
def SameSide (functions : FunctionTable) (front front' : List (List Token)) (piece : List Token) : Prop :=
  ∀ name ∈ bareNames piece, takesArguments functions name = true →
    (name ∈ front.flatMap definedNames ↔ name ∈ front'.flatMap definedNames)

/-- No definition with parameters is moved across a statement that has the name of its
function before an operand. -/
def Uncrossed (functions : FunctionTable) (pieces others : List (List Token)) : Prop :=
  ∀ i < pieces.length, ∀ j < others.length, ∀ piece ∈ pieces,
    pieces[i]? = some piece ∧ others[j]? = some piece ∧ isDefinition piece = false ∧
      (pieces.take i).filter (!isDefinition ·) = (others.take j).filter (!isDefinition ·) →
    SameSide functions (pieces.take i) (others.take j) piece

section Orders

variable {markUnknown : Bool} {pieces others : List (List Token)} {values values' : List (Option Tree)}
  {first first' last last' : Symbols} (trail : Trail markUnknown first pieces values last)
  (trail' : Trail markUnknown first' others values' last')
  (declared : Declared (· ∈ pieces.flatMap definedNames) first)
  (declared' : Declared (· ∈ pieces.flatMap definedNames) first')
  (reordered : Reordered pieces others)

include declared in
theorem takes_first (isOwn : name.toLower ∈ pieces.flatMap definedNames) :
    takesArguments first.functions name = false := by
  obtain ⟨f,found,none⟩ := declared.own name isOwn
  rw [takesArguments,found]
  simp [none]

include declared declared' in
theorem agree_first : Agree (fun _ => True) first first' := by
  constructor
  · intro name
    by_cases isOwn : name.toLower ∈ pieces.flatMap definedNames
    · obtain ⟨f,found,_⟩ := declared.own name isOwn
      obtain ⟨f',found',_⟩ := declared'.own name isOwn
      rw [found,found']
      rfl
    · rw [declared.others name isOwn,declared'.others name isOwn]
  · intro name _
    by_cases isOwn : name.toLower ∈ pieces.flatMap definedNames
    · rw [takes_first declared isOwn,takes_first declared' isOwn]
    · refine FunctionTable.takesArguments_of_find? ?_
      rw [declared.others name isOwn,declared'.others name isOwn]

theorem not_defined_aside (distinct : ((front ++ piece :: back).flatMap definedNames).Nodup)
    (defines : name ∈ definedNames piece) :
    name ∉ front.flatMap definedNames ∧ name ∉ back.flatMap definedNames := by
  rw [flatMap_append,flatMap_cons,nodup_append] at distinct
  obtain ⟨_,rest,apart⟩ := distinct
  rw [nodup_append] at rest
  refine ⟨fun isFront => apart name isFront name (mem_append_left _ defines) rfl, fun isBack => ?_⟩
  exact rest.2.2 name defines name isBack rfl

include reordered in
theorem Reordered.defined_iff (name : String) :
    name ∈ pieces.flatMap definedNames ↔ name ∈ others.flatMap definedNames :=
  (reordered.perm.flatMap_right definedNames).mem_iff

include reordered in
theorem Reordered.others_distinct : (others.flatMap definedNames).Nodup :=
  (reordered.perm.flatMap_right definedNames).nodup_iff.mp reordered.distinct

include declared declared' reordered in
/-- Half way through both orders the tables know the same functions. -/
theorem agree_middle {front' : List (List Token)} {values values' : List (Option Tree)} {middle middle' : Symbols}
    (ahead : Trail markUnknown first front values middle) (ahead' : Trail markUnknown first' front' values' middle')
    (inside : front ⊆ pieces) (inside' : front' ⊆ others) {names : String → Prop} (takes : ∀ name, names name.toLower →
      takesArguments middle.functions name = takesArguments middle'.functions name) :
    Agree names middle middle' := by
  refine ⟨fun name => ?_, takes⟩
  have part {some all : List (List Token)} (subset : some ⊆ all) (other : String)
      (member : other ∈ some.flatMap definedNames) : other ∈ all.flatMap definedNames := by
    obtain ⟨piece,isPiece,defines⟩ := mem_flatMap.mp member
    exact mem_flatMap.mpr ⟨piece, subset isPiece, defines⟩
  rw [ahead.known declared (part inside),(agree_first declared declared').known,
    ahead'.known declared' fun other member => (reordered.defined_iff other).mpr (part inside' other member)]

include trail trail' declared declared' reordered

/-- In the end both orders know the same of every function. -/
theorem takes_last (name : String) :
    takesArguments last.functions name = takesArguments last'.functions name := by
  have start := agree_first declared declared'
  by_cases isOwn : name.toLower ∈ pieces.flatMap definedNames
  · -- the statement that defines it is read from tables that agree on it
    obtain ⟨piece,isPiece,defines⟩ := mem_flatMap.mp isOwn
    have distinct := reordered.distinct
    have distinct' := reordered.others_distinct
    obtain ⟨front,back,isPieces⟩ := append_of_mem isPiece
    obtain ⟨front',back',isOthers⟩ := append_of_mem (reordered.perm.mem_iff.mp isPiece)
    rw [isPieces] at trail distinct
    rw [isOthers] at trail' distinct'
    obtain ⟨_,middle,_,_,ahead,rest⟩ := trail.split
    obtain ⟨_,middle',_,_,ahead',rest'⟩ := trail'.split
    obtain ⟨apart,later⟩ := not_defined_aside distinct defines
    obtain ⟨apart',later'⟩ := not_defined_aside distinct' defines
    cases rest with
    | cons one behind =>
      cases rest' with
      | cons one' behind' =>
        have agree : Agree (· = name.toLower) middle middle' := by
          refine agree_middle declared declared' reordered ahead ahead' (by simp [isPieces]) (by simp [isOthers]) ?_
          intro other same
          rw [ahead.takes (same ▸ apart),ahead'.takes (same ▸ apart'),start.takes other trivial]
        have ends := ((steady_again False _ (fun held => held.elim) agree one).2 one').1
        rw [behind.takes later,behind'.takes later',ends.takes name rfl]
  · rw [trail.takes isOwn,trail'.takes (mt (reordered.defined_iff _).mpr isOwn),start.takes name trivial]

section Halves

variable {front back front' back' : List (List Token)} {middle middle' : Symbols} {left left' : List (Option Tree)}

/-- At a statement that no definition with parameters was moved across, the tables agree on
the names before its operands. -/
theorem agree_statement (isPieces : pieces = front ++ back) (isOthers : others = front' ++ back')
    (half : Halfway markUnknown first last front back middle left)
    (half' : Halfway markUnknown first' last' front' back' middle' left')
    (sides : SameSide last.functions front front' piece) : Agree (· ∈ bareNames piece) middle middle' := by
  have distinct := reordered.distinct
  have distinct' := reordered.others_distinct
  obtain ⟨_,ahead⟩ := half.ahead
  obtain ⟨_,ahead'⟩ := half'.ahead
  refine agree_middle declared declared' reordered ahead ahead' (by simp [isPieces]) (by simp [isOthers]) ?_
  intro name isBare
  have side := sides _ isBare
  rw [isPieces] at distinct
  rw [isOthers] at distinct'
  rw [half.takes distinct,half'.takes distinct',← takes_last trail trail' declared declared' reordered,
    ← (agree_first declared declared').takes name trivial]
  have lower : takesArguments last.functions name.toLower = takesArguments last.functions name := by
    rw [takesArguments,FunctionTable.find?_of_lower (Text.toLower_toLower name),takesArguments]
  rw [lower] at side
  cases takes : takesArguments last.functions name with
  | true => simp only [side takes]
  | false =>
    -- without parameters a function is called behind its definition as before it
    by_cases isOwn : name.toLower ∈ pieces.flatMap definedNames
    · rw [takes_first declared isOwn,ite_self,ite_self]
    · have apart : name.toLower ∉ front.flatMap definedNames := by
        rw [isPieces,flatMap_append] at isOwn
        exact fun isFront => isOwn (mem_append_left _ isFront)
      have apart' : name.toLower ∉ front'.flatMap definedNames := by
        rw [reordered.defined_iff,isOthers,flatMap_append] at isOwn
        exact fun isFront => isOwn (mem_append_left _ isFront)
      rw [if_neg apart,if_neg apart']

theorem plain_trees_eq (uncrossed : Uncrossed last.functions pieces others) (isPieces : pieces = front ++ back)
    (isOthers : others = front' ++ back') (half : Halfway markUnknown first last front back middle left)
    (half' : Halfway markUnknown first' last' front' back' middle' left')
    (done : front.filter (!isDefinition ·) = front'.filter (!isDefinition ·))
    (remain : back.filter (!isDefinition ·) = back'.filter (!isDefinition ·)) :
    (left.flatMap Option.toList).filter (!·.isFunction) = (left'.flatMap Option.toList).filter (!·.isFunction) := by
  -- definitions are passed over on either side, and other statements are read together
  induction size : back.length + back'.length using Nat.strongRecOn generalizing front back front' back' middle middle' left left' with
  | _ size ih =>
    subst size
    have passRight {piece : List Token} {rest : List (List Token)} (isBack : back' = piece :: rest)
        (defines : isDefinition piece = true) :
        (left.flatMap Option.toList).filter (!·.isFunction) = (left'.flatMap Option.toList).filter (!·.isFunction) := by
      subst isBack
      obtain ⟨_,_,half',plain⟩ := half'.pass defines
      rw [plain]
      refine ih _ (by simp) isPieces (by simp [isOthers]) half half' ?_ ?_ rfl
      · simp [done,defines]
      · simp [remain,defines]
    cases back with
    | nil =>
      cases isBack : back' with
      | nil =>
        subst isBack
        rw [half.value_nil,half'.value_nil]
      | cons piece rest =>
        refine passRight isBack ?_
        have none := filter_eq_nil_iff.mp remain.symm piece (by simp [isBack])
        simpa using none
    | cons piece rest =>
      cases defines : isDefinition piece with
      | true =>
        obtain ⟨_,_,half,plain⟩ := half.pass defines
        rw [plain]
        refine ih _ (by simp) (by simp [isPieces]) isOthers half half' ?_ ?_ rfl
        · simp [done,defines]
        · simp [← remain,defines]
      | false =>
        cases isBack : back' with
        | nil => simp [isBack,defines] at remain
        | cons piece' rest' =>
          cases defines' : isDefinition piece' with
          | true => exact passRight isBack defines'
          | false =>
            subst isBack
            simp only [filter_cons,defines,defines',Bool.not_false,if_true,List.cons.injEq] at remain
            obtain ⟨rfl,remain⟩ := remain
            have agree : Agree (· ∈ bareNames piece) middle middle' := by
              refine agree_statement trail trail' declared declared' reordered isPieces isOthers half half' ?_
              have here := uncrossed front.length (by simp [isPieces]) front'.length (by simp [isOthers]) piece
                (by simp [isPieces])
              simp only [isPieces,isOthers,take_left] at here
              exact here ⟨by simp, by simp, defines, done⟩
            obtain ⟨value,later,next,rfl,one,half⟩ := half.next
            obtain ⟨value',later',next',rfl,one',half'⟩ := half'.next
            have equal : value' = value :=
              ((steady_again True _ (fun _ _ member => member) agree one).2 one').2.2 trivial
            rw [flatMap_cons,flatMap_cons,filter_append,filter_append,equal]
            congr 1
            refine ih _ (by simp; omega) (by simp [isPieces]) (by simp [isOthers]) half half' ?_ remain rfl
            rw [filter_append,filter_append,done]

end Halves
end Orders

/-! ### Programs -/

/-- A program is read by declaring what it defines and then reading its statements, on
whatever lines they are. -/
theorem trail_of_program {markUnknown : Bool} {tokens : List Token} {trees : List Tree} {table : Symbols}
    (read : outcome (program markUnknown tokens) {} = (.ok (.block trees), table)) {place : Nat → Nat} (still : place 0 = 0) :
    ∃ first last values, Declared (· ∈ (rootStatements place tokens).flatMap definedNames) first ∧
      Trail markUnknown first (rootStatements place tokens) values last ∧ Agree (fun _ => True) table last ∧
      values.flatMap Option.toList = trees.map (Tree.relined place) := by
  obtain ⟨first,declares,declared⟩ := declares none (tokens.filter (·.tag != .whitespace)) declared_nothing
  rw [program_eq_pieces,outcome_bind_ok declares] at read
  obtain ⟨values,middle,done,finish⟩ := outcome_bind_eq_ok read
  cases finish
  obtain ⟨last,trail,agree⟩ := (trail_of_mapM done).relined still (.refl _ first)
  refine ⟨first, last, _, declared.mono ?_, trail, agree, ?_⟩
  · intro name
    rw [definedNames_rootStatements,false_or]
  · rw [flatMap_map,map_flatMap]
    exact flatMap_congr fun value _ => Option.toList_map

theorem exists_block {settings : Settings} {tokens : List Token}
    (accepted : (Symbols.read {} settings tokens).1.isOk = true) :
    ∃ trees table, Symbols.read {} settings tokens = (.ok (.block trees), table) := by
  cases done : Symbols.read {} settings tokens with
  | mk result table =>
    rw [done] at accepted
    cases result with
    | error _ => cases accepted
    | ok tree =>
      change outcome (program settings.dumpUnknown tokens) {} = _ at done
      obtain ⟨_,_,_,rest⟩ := outcome_bind_eq_ok done
      obtain ⟨trees,_,_,finish⟩ := outcome_bind_eq_ok rest
      cases finish
      exact ⟨trees, _, rfl⟩

end Read

open CalcBasic.Read

/-- Moving definitions leaves the other statements as they are read, if no definition with
parameters is moved across a name of its function before an operand. The lines may differ:
they are compared where `place` puts them, so that `id` tells all lines apart and a constant
tells none. -/
theorem statements_of_moved_definitions {settings : Settings} {tokens others : List Token} {trees trees' : List Tree}
    {table table' : Symbols} {place : Nat → Nat} (still : place 0 = 0)
    (read : Symbols.read {} settings tokens = (.ok (.block trees), table))
    (read' : Symbols.read {} settings others = (.ok (.block trees'), table'))
    (reordered : Reordered (rootStatements place tokens) (rootStatements place others))
    (uncrossed : Uncrossed table.functions (rootStatements place tokens) (rootStatements place others)) :
    (trees.map (Tree.relined place)).filter (!·.isFunction) = (trees'.map (Tree.relined place)).filter (!·.isFunction) := by
  obtain ⟨first,last,values,declared,trail,agree,isTrees⟩ := trail_of_program read still
  obtain ⟨first',last',values',declared',trail',_,isTrees'⟩ := trail_of_program read' still
  have also := declared'.mono reordered.defined_iff
  rw [← isTrees,← isTrees']
  refine plain_trees_eq trail trail' declared also reordered ?_ rfl rfl ⟨⟨_, .nil first⟩, trail⟩ ⟨⟨_, .nil first'⟩, trail'⟩ rfl
    reordered.order
  intro i below j below' piece member same name isBare takes
  rw [← agree.takes name trivial] at takes
  exact uncrossed i below j below' piece member same name isBare takes

instance (pieces others : List (List Token)) : Decidable (Reordered pieces others) :=
  decidable_of_iff (pieces.Perm others ∧ pieces.filter (!isDefinition ·) = others.filter (!isDefinition ·) ∧
    (pieces.flatMap definedNames).Nodup)
    ⟨fun ⟨perm, order, distinct⟩ => ⟨perm, order, distinct⟩, fun ⟨perm, order, distinct⟩ => ⟨perm, order, distinct⟩⟩

instance (functions : FunctionTable) (front front' : List (List Token)) (piece : List Token) :
    Decidable (SameSide functions front front' piece) :=
  inferInstanceAs (Decidable (∀ name ∈ bareNames piece, takesArguments functions name = true →
    (name ∈ front.flatMap definedNames ↔ name ∈ front'.flatMap definedNames)))

instance (functions : FunctionTable) (pieces others : List (List Token)) : Decidable (Uncrossed functions pieces others) :=
  inferInstanceAs (Decidable (∀ i < pieces.length, ∀ j < others.length, ∀ piece ∈ pieces,
    pieces[i]? = some piece ∧ others[j]? = some piece ∧ isDefinition piece = false ∧
      (pieces.take i).filter (!isDefinition ·) = (others.take j).filter (!isDefinition ·) →
    SameSide functions (pieces.take i) (others.take j) piece))

def definitionsFirst : List Token := scan false "function f(n) \x7b\x7d f 2;\nfunction g(a) \x7b\x7d\nx = g(3)"

def definitionLast : List Token := scan false "function f(n) \x7b\x7d f 2;\nx = g(3);\nfunction g(a) \x7b\x7d"

theorem statements_of_late_definition : ∃ trees trees',
    (Symbols.read {} {} definitionsFirst).1 = .ok (.block trees) ∧ (Symbols.read {} {} definitionLast).1 = .ok (.block trees') ∧
    Reordered (rootStatements (fun _ => 0) definitionsFirst) (rootStatements (fun _ => 0) definitionLast) ∧
    (trees.map (Tree.relined fun _ => 0)).filter (!·.isFunction) =
      (trees'.map (Tree.relined fun _ => 0)).filter (!·.isFunction) := by
  obtain ⟨trees,table,read⟩ := @exists_block {} definitionsFirst (by decide +kernel)
  obtain ⟨trees',table',read'⟩ := @exists_block {} definitionLast (by decide +kernel)
  have reordered : Reordered (rootStatements (fun _ => 0) definitionsFirst) (rootStatements (fun _ => 0) definitionLast) := by
    decide +kernel
  have uncrossed : Uncrossed (Symbols.read {} {} definitionsFirst).2.functions (rootStatements (fun _ => 0) definitionsFirst)
      (rootStatements (fun _ => 0) definitionLast) := by decide +kernel
  rw [read] at uncrossed
  exact ⟨trees, trees', by rw [read], by rw [read'], reordered,
    statements_of_moved_definitions rfl read read' reordered uncrossed⟩

/-- Before the definition of its function a name is not seen to take the operand behind it. -/
theorem bare_call_before_definition :
    let before := scan false "f 2; function f(n) { return n }"
    let behind := scan false "function f(n) { return n } f 2;"
    Reordered (rootStatements id before) (rootStatements id behind) ∧
      (Symbols.read {} {} before).1.toOption.map (·.children.map Tree.kind) = some [.native, .function] ∧
      (Symbols.read {} {} behind).1.toOption.map (·.children.map Tree.kind) = some [.function, .call] := by
  decide +kernel

end CalcBasic
