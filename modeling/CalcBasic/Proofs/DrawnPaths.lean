import CalcBasic.Proofs.LoweredCalls
import Mathlib.Algebra.Ring.Parity

/-! Paths and shapes. A path is expanded to the lines between its points, and a shape to those
lines and the one from its last point back to the first. A coordinate that is left over makes
a line of three coordinates, which is refused. -/
namespace CalcBasic
open List
open CalcBasic.Tree (callOf)

namespace FunctionTable

variable {table : FunctionTable} {name : String}

/-- The expansion of a builtin that the program does not redefine. -/
def expansion? (table : FunctionTable) (name : String) : Option Expansion :=
  if (table.user? name).isSome then none else (Builtin.find? name).bind Builtin.expansion

theorem expansion?_undefined (undefined : table.user? name = none) :
    table.expansion? name = (Builtin.find? name).bind Builtin.expansion := by
  rw [expansion?,undefined]
  rfl

theorem expansion?_eq_some {expansion : Expansion} (expands : table.expansion? name = some expansion) :
    table.user? name = none ∧ ∃ f, Builtin.find? name = some f ∧ f.expansion = some expansion := by
  unfold expansion? at expands
  split at expands
  · cases expands
  · rename_i undefined
    exact ⟨by simpa using undefined, Option.bind_eq_some_iff.mp expands⟩

/-- The statements that a tree stands for, with every builtin expanded that can be. -/
def unrolled (table : FunctionTable) (tree : Tree) : List Tree :=
  match tree with
  | .line statements => statements.attach.flatMap fun statement => unrolled table statement.1
  | .call name arguments line =>
    match _ : table.expansion? name with
    | some expansion => unrolled table (expansion.expand arguments line)
    | none => [.call name arguments line]
  | other => [other]
termination_by tree.rank
decreasing_by
  · exact Nat.lt_of_lt_of_le (Nat.lt_succ_self _) (@Tree.rank_child (.line statements) _ statement.2)
  · obtain ⟨_,f,isBuiltin,expands⟩ := expansion?_eq_some ‹_›
    exact Expansion.rank_expand isBuiltin expands arguments line

theorem unrolled_line (statements : List Tree) : table.unrolled (.line statements) = statements.flatMap table.unrolled := by
  rw [unrolled]
  simp only [flatMap_subtype,unattach_attach]

theorem unrolled_expansion {expansion : Expansion} (expands : table.expansion? name = some expansion) (arguments : List Tree)
    (line : Nat) : table.unrolled (.call name arguments line) = table.unrolled (expansion.expand arguments line) := by
  rw [unrolled]
  split
  · rename_i found
    rw [expands] at found
    cases found
    rfl
  · rename_i found
    rw [expands] at found
    cases found

theorem unrolled_kept (kept : table.expansion? name = none) (arguments : List Tree) (line : Nat) :
    table.unrolled (.call name arguments line) = [.call name arguments line] := by
  rw [unrolled]
  split
  · rename_i found
    rw [kept] at found
    cases found
  · rfl

end FunctionTable

namespace Expansion

/-- The coordinates of points, in order. -/
def coordinates (points : List (Tree × Tree)) : List Tree := points.flatMap fun point => [point.1, point.2]

def joining (line : Nat) (start stop : Tree × Tree) : Tree :=
  callOf "draw_line" [start.1, start.2, stop.1, stop.2] line

theorem segments_coordinates (points : List (Tree × Tree)) (line : Nat) :
    (segments (coordinates points)).map (fun segment => callOf "draw_line" segment line) =
      List.zipWith (joining line) points points.tail := by
  induction points with
  | nil => rfl
  | cons start rest ih =>
    cases rest with
    | nil => rfl
    | cons stop rest => exact congrArg (joining line start stop :: ·) ih

/-- The last point and the first are at the two ends of the coordinates. -/
theorem closing_coordinates {points : List (Tree × Tree)} {first last : Tree × Tree} (isFirst : points.head? = some first)
    (isLast : points.getLast? = some last) :
    (coordinates points).drop ((coordinates points).length - 2) ++ (coordinates points).take 2 =
      [last.1, last.2, first.1, first.2] := by
  have start : (coordinates points).take 2 = [first.1, first.2] := by
    obtain ⟨rest,rfl⟩ := head?_eq_some_iff.mp isFirst
    rfl
  have stop : (coordinates points).drop ((coordinates points).length - 2) = [last.1, last.2] := by
    obtain ⟨before,rfl⟩ := getLast?_eq_some_iff.mp isLast
    simp [coordinates]
  rw [start,stop]
  rfl

/-- The windows start at every other coordinate, as long as three are left. -/
theorem segments_eq (points : List Tree) :
    segments points = (List.range ((points.length - 1) / 2)).map fun place => (points.drop (2 * place)).take 4 := by
  fun_induction segments points with
  | case1 a b c rest ih =>
    have count : ((a :: b :: c :: rest).length - 1) / 2 = ((c :: rest).length - 1) / 2 + 1 := by
      simp only [length_cons]
      omega
    rw [count,range_succ_eq_map,map_cons,map_map,ih]
    rfl
  | case2 points few =>
    rcases points with _ | ⟨a,_ | ⟨b,_ | ⟨c,rest⟩⟩⟩
    · simp
    · simp
    · simp
    · exact absurd rfl (few a b c rest)

theorem segments_odd {points : List Tree} (odd : Odd points.length) (least : 3 ≤ points.length) :
    ∃ short, short.length = 3 ∧ segments points =
      ((List.range ((points.length - 3) / 2)).map fun place => (points.drop (2 * place)).take 4) ++ [short] := by
  obtain ⟨half,isHalf⟩ := odd
  have count : (points.length - 1) / 2 = (points.length - 3) / 2 + 1 := by omega
  refine ⟨(points.drop (2 * ((points.length - 3) / 2))).take 4, ?_, ?_⟩
  · rw [length_take,length_drop]
    omega
  · rw [segments_eq,count,range_succ,map_append]
    rfl

theorem mem_of_mem_windows {points : List Tree} {count : Nat} {tree : Tree}
    (member : tree ∈ (List.range count).flatMap fun place => (points.drop (2 * place)).take 4) : tree ∈ points := by
  obtain ⟨place,_,inside⟩ := mem_flatMap.mp member
  exact mem_of_mem_drop (mem_of_mem_take inside)

end Expansion

/-! ### Expansion to lines -/

theorem Tree.callOf_drawing {name : String} (drawing : name ∈ ["draw_path", "draw_shape", "draw_line"]) (arguments : List Tree)
    (line : Nat) : callOf name arguments line = .call name arguments line := by
  have lower : ∀ name ∈ ["draw_path", "draw_shape", "draw_line"], name.toLower = name := by decide +kernel
  rw [callOf,lower name drawing]

/-- The program defines no function with the name of a builtin that draws. -/
def FunctionTable.Draws (table : FunctionTable) : Prop :=
  ∀ name ∈ ["draw_path", "draw_shape", "draw_line"], table.user? name = none

section Unrolling

variable {table : FunctionTable} (draws : table.Draws)
include draws

theorem expansion?_drawing : table.expansion? "draw_path" = some .path ∧ table.expansion? "draw_shape" = some .shape ∧
    table.expansion? "draw_line" = none := by
  rw [FunctionTable.expansion?_undefined (draws "draw_path" (by simp)),
    FunctionTable.expansion?_undefined (draws "draw_shape" (by simp)),
    FunctionTable.expansion?_undefined (draws "draw_line" (by simp))]
  decide +kernel

theorem unrolled_segment (segment : List Tree) (line : Nat) :
    table.unrolled (callOf "draw_line" segment line) = [callOf "draw_line" segment line] := by
  rw [Tree.callOf_drawing (by simp)]
  exact FunctionTable.unrolled_kept (expansion?_drawing draws).2.2 segment line

theorem unrolled_path (arguments : List Tree) (line : Nat) :
    table.unrolled (callOf "draw_path" arguments line) =
      (Expansion.segments arguments).map fun segment => callOf "draw_line" segment line := by
  rw [Tree.callOf_drawing (by simp),FunctionTable.unrolled_expansion (expansion?_drawing draws).1]
  simp only [Expansion.expand,Expansion.pathTree,FunctionTable.unrolled_line,flatMap_map,unrolled_segment draws]
  exact map_eq_flatMap.symm

theorem unrolled_shape (arguments : List Tree) (line : Nat) :
    table.unrolled (callOf "draw_shape" arguments line) = table.unrolled (callOf "draw_path" arguments line) ++
      [callOf "draw_line" (arguments.drop (arguments.length - 2) ++ arguments.take 2) line] := by
  rw [Tree.callOf_drawing (by simp),FunctionTable.unrolled_expansion (expansion?_drawing draws).2.1]
  simp only [Expansion.expand,Expansion.shapeTree,FunctionTable.unrolled_line,flatMap_cons,flatMap_nil,
    unrolled_segment draws,append_nil]

end Unrolling

/-! ### Code -/

namespace Emit
open CalcBasic.Action

variable {emitter : Emitter} {segment : List Tree} {table : FunctionTable} {stack : List String} {α : Type}

/-- Two actions have the same outcome, whatever has been expanded before. -/
abbrev Same (table : FunctionTable) (stack : List String) {α : Type} (action other : Emit α) : Prop :=
  Parallel (watching table fun _ _ => False) stack action other fun _ => True

theorem Same.outcome_eq {action other : Emit α} (same : Same table stack action other) (expands : Expands table stack emitter) :
    outcome action emitter = outcome other emitter := (same emitter emitter expands rfl).1.eq

theorem Same.trans {first second third : Emit α} (same : Same table stack first second)
    (next : Same table stack second third) : Same table stack first third := by
  rintro emitter _ expands rfl
  obtain ⟨alike,kept⟩ := same emitter emitter expands rfl
  rw [next.outcome_eq expands] at alike
  exact ⟨alike, kept⟩

theorem Same.bind_fail {β γ : Type} {action : Emit α} {before : Emit γ} {fault : Fault} {line : Option Nat}
    (same : Same table stack action (do let _ ← before; fail fault line))
    (next : α → Emit β) : Same table stack (action >>= next) (do let _ ← before; fail fault line) := by
  rintro emitter _ expands rfl
  obtain ⟨alike,kept⟩ := same emitter emitter expands rfl
  rw [outcome_bind] at alike ⊢
  rw [outcome_bind]
  generalize outcome action emitter = reached at alike kept ⊢
  generalize outcome before emitter = begun at alike ⊢
  rcases begun with ⟨error | value,after⟩
  · cases alike with
    | error related like => exact ⟨.error related like, kept⟩
  · change Alike _ _ _ (.error _, after) at alike
    cases alike with
    | error related like => exact ⟨.error related like, kept⟩

section Drawing

variable {table : FunctionTable} {stack : List String} (stacked : Stacked table stack)
include stacked

theorem same_code {tree : Tree} {other : Emit String} (rendered : ∀ emitter : Emitter, emitter.symbols.functions = table →
      outcome (construct coded false tree) emitter = outcome other emitter) : Same table stack (code tree) other := by
  rintro emitter _ expands rfl
  have alike := parallel_coded stacked false tree emitter emitter expands rfl
  rwa [rendered emitter expands.functions] at alike

theorem same_itself (tree : Tree) : Same table stack (code tree) (code tree) := (parallel_coded stacked false tree).itself

theorem same_line (statements : List Tree) :
    Same table stack (code (.line statements)) (do return Code.joinStatements (← statements.mapM code)) :=
  parallel_coded stacked false (.line statements)

theorem same_expansion {name : String} {expansion : Expansion} (expands : table.expansion? name = some expansion)
    (arguments : List Tree) (line : Nat) :
    Same table stack (code (.call name arguments line)) (code (expansion.expand arguments line)) := by
  obtain ⟨undefined,f,isBuiltin,replaced⟩ := FunctionTable.expansion?_eq_some expands
  refine same_code stacked ?_
  rintro emitter rfl
  exact (lowers emitter).expansion name f expansion undefined isBuiltin replaced coded false arguments line

theorem outcome_mapM_code {trees : List Tree} (each : ∀ tree ∈ trees, ∀ state, Expands table stack state →
      ∃ text, (outcome (code tree) state).1 = .ok text) (expands : Expands table stack emitter) :
    ∃ texts after, outcome (trees.mapM code) emitter = (.ok texts, after) := by
  induction trees generalizing emitter with
  | nil => exact ⟨[], emitter, rfl⟩
  | cons tree rest ih =>
    obtain ⟨text,given⟩ := each tree (by simp) emitter expands
    obtain ⟨texts,after,done⟩ := ih (fun other member => each other (by simp [member]))
      (same_itself stacked tree emitter emitter expands rfl).2
    rw [mapM_cons,outcome_bind_ok (outcome_eq_ok given),outcome_bind_ok done]
    exact ⟨_, _, rfl⟩

variable (draws : table.Draws)
include draws

theorem same_segment (four : segment.length = 4) (line : Nat) : Same table stack (code (callOf "draw_line" segment line))
      (do return "Line(" ++ ",".intercalate (← segment.mapM code) ++ ")") := by
  refine same_code stacked ?_
  rintro emitter rfl
  exact (lowers emitter).segment (draws _ (by simp)) coded false segment line (.inl four)

theorem same_refusal (three : segment.length = 3) (line : Nat) : Same table stack (code (callOf "draw_line" segment line))
      (fail (.argumentCount "draw_line" 3 "4 or 5") (some line)) := by
  rw [Tree.callOf_drawing (by simp)]
  refine same_code stacked ?_
  rintro emitter rfl
  have isBuiltin : Builtin.find? "draw_line" =
      some (.function "draw_line" "Line" (.exactly [4, 5]) "draw" "Line between two points") := by decide +kernel
  have refused : (Arity.exactly [4, 5]).accepts 3 = false := by decide
  have described : (Arity.exactly [4, 5]).describe = "4 or 5" := by decide +kernel
  refine (outcome_call_builtin (draws "draw_line" (by simp)) isBuiltin coded segment line).trans ?_
  simp only [builtinCall,Builtin.function,wrongCount,three,refused,described,Bool.not_false,if_true]

theorem same_path (arguments : List Tree) (line : Nat) :
    Same table stack (code (callOf "draw_path" arguments line))
      (do return Code.joinStatements (← (table.unrolled (callOf "draw_path" arguments line)).mapM code)) := by
  rw [unrolled_path draws,Tree.callOf_drawing (by simp)]
  exact (same_expansion stacked (expansion?_drawing draws).1 arguments line).trans (same_line stacked _)

theorem same_shape (arguments : List Tree) (line : Nat) :
    Same table stack (code (callOf "draw_shape" arguments line))
      (do return Code.joinStatements (← [callOf "draw_path" arguments line,
        callOf "draw_line" (arguments.drop (arguments.length - 2) ++ arguments.take 2) line].mapM code)) := by
  rw [@Tree.callOf_drawing "draw_shape" (by simp)]
  exact (same_expansion stacked (expansion?_drawing draws).2.1 arguments line).trans (same_line stacked _)

/-- Behind lines that are drawn, one that is refused ends the run. -/
theorem same_refused {windows : List (List Tree)} (four : ∀ window ∈ windows, window.length = 4) {short : List Tree}
    (three : short.length = 3) (line : Nat) :
    Same table stack (((windows ++ [short]).map fun segment => callOf "draw_line" segment line).mapM code)
      (do
        let _ ← windows.flatten.mapM code
        fail (.argumentCount "draw_line" 3 "4 or 5") (some line)) := by
  induction windows with
  | nil => exact parallel_bind (same_refusal stacked draws three line) fun _ _ => parallel_pure trivial
  | cons window rest ih =>
    have later := ih fun other member => four other (by simp [member])
    have drawn := parallel_bind (same_segment stacked draws (four window (by simp)) line) fun text (_ : True) =>
      later.bind_fail fun texts => pure (text :: texts)
    simp only [bind_assoc,pure_bind] at drawn
    simp only [cons_append,map_cons,mapM_cons,flatten_cons,mapM_append,bind_assoc,pure_bind]
    exact drawn

/-- With a coordinate left over, neither a path nor a shape is drawn. -/
theorem same_left_over {arguments : List Tree} (odd : Odd arguments.length) (least : 3 ≤ arguments.length) {name : String}
    (drawing : name ∈ ["draw_path", "draw_shape"]) (line : Nat) :
    Same table stack (code (callOf name arguments line))
      (do
        let _ ← ((List.range ((arguments.length - 3) / 2)).flatMap fun place => (arguments.drop (2 * place)).take 4).mapM code
        fail (.argumentCount "draw_line" 3 "4 or 5") (some line)) := by
  obtain ⟨short,three,cut⟩ := Expansion.segments_odd odd least
  have four : ∀ window ∈ (List.range ((arguments.length - 3) / 2)).map fun place => (arguments.drop (2 * place)).take 4,
      window.length = 4 := by
    intro window member
    obtain ⟨place,inside,rfl⟩ := mem_map.mp member
    have := mem_range.mp inside
    rw [length_take,length_drop]
    omega
  have path := same_path stacked draws arguments line
  rw [unrolled_path draws,cut] at path
  have refused := path.trans ((same_refused stacked draws four three line).bind_fail _)
  rw [flatMap_def]
  rcases mem_cons.mp drawing with rfl | last
  · exact refused
  · rw [mem_singleton.mp last]
    refine (same_shape stacked draws arguments line).trans ?_
    rw [mapM_cons,bind_assoc]
    exact refused.bind_fail _

end Drawing


/-- Every line that a shape is expanded to has the four coordinates that the builtin takes. -/
theorem exists_segment {points : List (Tree × Tree)} {first last : Tree × Tree} {line : Nat} {call : Tree}
    (member : call ∈ List.zipWith (Expansion.joining line) points points.tail ++ [Expansion.joining line last first]) :
    ∃ start stop, call = Expansion.joining line start stop := by
  rcases mem_append.mp member with between | closing
  · obtain ⟨place,found⟩ := mem_iff_getElem?.mp between
    obtain ⟨start,stop,_,_,rfl⟩ := getElem?_zipWith_eq_some.mp found
    exact ⟨start, stop, rfl⟩
  · exact ⟨last, first, mem_singleton.mp closing⟩

/-- Paths join each point to the next, and shapes the last one to the first as well: these are
all the lines there are, and each is written with its four coordinates. With a coordinate too
many, what can be drawn has its code made, and then the line that lacks one is refused. -/
theorem paths_join_points {emitter : Emitter} (stacked : Stacked emitter.symbols.functions emitter.inlining)
    (draws : emitter.symbols.functions.Draws) (line : Nat) :
    let table := emitter.symbols.functions
    (∀ points first last, 2 ≤ points.length → points.head? = some first → points.getLast? = some last →
      let path := callOf "draw_path" (Expansion.coordinates points) line
      let shape := callOf "draw_shape" (Expansion.coordinates points) line
      let closing := Expansion.joining line last first
      (table.unrolled path).length + 1 = points.length ∧
      (∀ place start stop, points[place]? = some start → points[place + 1]? = some stop →
        (table.unrolled path)[place]? = some (Expansion.joining line start stop)) ∧
      table.unrolled shape = table.unrolled path ++ [closing] ∧
      (∀ call ∈ table.unrolled shape, ∃ segment f, call = callOf "draw_line" segment line ∧ segment.length = 4 ∧
        table.find? "draw_line" = some (.builtin f) ∧ f.arity.accepts segment.length = true ∧
        ∀ state, Expands table emitter.inlining state → outcome (code call) state =
          outcome (do return "Line(" ++ ",".intercalate (← segment.mapM code) ++ ")") state) ∧
      outcome (code path) emitter = outcome (do return Code.joinStatements (← (table.unrolled path).mapM code)) emitter ∧
      outcome (code shape) emitter = outcome (do return Code.joinStatements (← [path, closing].mapM code)) emitter) ∧
    ∀ arguments name, Odd arguments.length → 3 ≤ arguments.length → name ∈ ["draw_path", "draw_shape"] →
      let call := callOf name arguments line
      outcome (code call) emitter = outcome (do
        let _ ← ((List.range ((arguments.length - 3) / 2)).flatMap fun place => (arguments.drop (2 * place)).take 4).mapM code
        fail (.argumentCount "draw_line" 3 "4 or 5") (some line)) emitter ∧
      ((∀ argument ∈ arguments, ∀ state, Expands table emitter.inlining state →
          ∃ text, (outcome (code argument) state).1 = .ok text) →
        (outcome (code call) emitter).1 = .error ⟨.argumentCount "draw_line" 3 "4 or 5", some line⟩) := by
  have known : Expands emitter.symbols.functions emitter.inlining emitter := ⟨rfl, rfl⟩
  refine ⟨fun points first last two isFirst isLast => ?_, fun arguments name odd least drawing => ?_⟩
  · have path := (unrolled_path draws _ line).trans (Expansion.segments_coordinates points line)
    have shape := unrolled_shape draws (Expansion.coordinates points) line
    have drawn := (same_shape stacked draws (Expansion.coordinates points) line).outcome_eq known
    rw [Expansion.closing_coordinates isFirst isLast] at shape drawn
    refine ⟨?_, ?_, shape, ?_, (same_path stacked draws _ line).outcome_eq known, drawn⟩
    · rw [path,length_zipWith,length_tail]
      omega
    · intro place start stop here next
      rw [path]
      exact getElem?_zipWith_eq_some.mpr ⟨start, stop, here, getElem?_tail.trans next, rfl⟩
    · intro call member
      rw [shape,path] at member
      obtain ⟨start,stop,rfl⟩ := exists_segment member
      obtain ⟨f,isBuiltin,_,_,_,accepted⟩ := isWritten_line (.inl rfl)
      refine ⟨[start.1, start.2, stop.1, stop.2], f, rfl, rfl, ?_, accepted, fun state expands => ?_⟩
      · rw [FunctionTable.find?,draws _ (by simp),isBuiltin]
        rfl
      · exact (same_segment stacked draws rfl line).outcome_eq expands
  · have refused := (same_left_over stacked draws odd least drawing line).outcome_eq known
    refine ⟨refused, fun rendered => ?_⟩
    obtain ⟨texts,after,done⟩ := outcome_mapM_code stacked (fun tree member =>
      rendered tree (Expansion.mem_of_mem_windows member)) known
    rw [refused,outcome_bind_ok done]
    rfl

/-- The corners of the unit triangle. -/
def triangle : List (Tree × Tree) :=
  [(.boolean false, .boolean false), (.boolean true, .boolean false), (.boolean false, .boolean true)]

theorem paths_join_points_triangle :
    let emitter : Emitter := { symbols := {}, modern := false, folding := false, program := "P" }
    Stacked emitter.symbols.functions emitter.inlining ∧ emitter.symbols.functions.Draws ∧
    (outcome (code (callOf "draw_shape" (Expansion.coordinates triangle) 1)) emitter).1 =
      .ok "Line(0,0,1,0:Line(1,0,0,1:Line(0,1,0,0" ∧
    (outcome (code (callOf "draw_shape" (Expansion.coordinates triangle ++ [.boolean true]) 1)) emitter).1 =
      .error ⟨.argumentCount "draw_line" 3 "4 or 5", some 1⟩ := by
  intro emitter
  have stacked : Stacked emitter.symbols.functions emitter.inlining := .nil _
  have draws : emitter.symbols.functions.Draws := fun _ _ => rfl
  obtain ⟨even,odd⟩ := paths_join_points stacked draws 1
  refine ⟨stacked, draws, ?_, ?_⟩
  · obtain ⟨_,_,_,_,_,drawn⟩ := even triangle _ _ (by decide) rfl rfl
    rw [drawn]
    decide +kernel
  · refine (odd _ "draw_shape" (by decide) (by decide) (by simp)).2 fun argument member state expands => ?_
    have boolean : ∃ value, argument = .boolean value := by
      simp only [Expansion.coordinates,triangle,flatMap_cons,flatMap_nil,cons_append,nil_append,
        mem_cons,not_mem_nil,or_false] at member
      rcases member with rfl | rfl | rfl | rfl | rfl | rfl | rfl <;> exact ⟨_, rfl⟩
    obtain ⟨value,rfl⟩ := boolean
    exact ⟨_, congrArg Prod.fst (Same.outcome_eq (parallel_coded stacked false (.boolean value)) expands)⟩

end Emit
end CalcBasic
