import CalcBasic.Proofs.Lasting
import CalcBasic.Proofs.ScannedTokens
import CalcBasic.Proofs.Stages

/-! The list behind the scalars. Scalars past the alphabet are elements of a list that is
entered under a name like any other list. Internal names are out of reach of a program;
this one is not, and a program shares the list if and only if it uses the name. -/
namespace CalcBasic

/-! ### Upper case of words -/

theorem Lexeme.lt_of_isWordPart {c : Char} (part : isWordPart c = true) : c.toNat < 128 := by
  simp only [isWordPart,Char.isAlphanum,Char.isAlpha,Bool.or_eq_true,isUpper_iff_code,isLower_iff_code,isDigit_iff_code,
    beq_iff_eq] at part
  rcases part with ((upper | lower) | digit) | rfl
  · omega
  · omega
  · omega
  · decide

namespace Text

variable {c : Char} {text other : String}

theorem toUpper_eq_self (large : ¬(97 ≤ c.toNat ∧ c.toNat ≤ 122)) : c.toUpper = c := dif_neg large

/-- Folding to one case after folding to the other loses nothing more. -/
theorem toLower_toUpper (c : Char) : c.toUpper.toLower = c.toLower := by
  by_cases small : 97 ≤ c.toNat ∧ c.toNat ≤ 122
  · have each : ∀ code < 123, 97 ≤ code → (Char.ofNat code).toUpper.toLower = (Char.ofNat code).toLower := by decide
    simpa only [Char.ofNat_toNat] using each c.toNat (by omega) small.1
  · rw [toUpper_eq_self small]

theorem toUpper_toLower (c : Char) : c.toLower.toUpper = c.toUpper := by
  by_cases large : 65 ≤ c.toNat ∧ c.toNat ≤ 90
  · have each : ∀ code < 91, 65 ≤ code → (Char.ofNat code).toLower.toUpper = (Char.ofNat code).toUpper := by decide
    simpa only [Char.ofNat_toNat] using each c.toNat (by omega) large.1
  · rw [Lexeme.toLower_of_code large]

/-- Only the first run and no sequence is about characters below 128. -/
theorem tables_above_ascii : (∀ run ∈ upperRuns.tail, 128 ≤ run.first) ∧ ∀ sequence ∈ upperSequences, 128 ≤ sequence.1 := by
  decide +kernel

theorem upperChar_ascii (ascii : c.toNat < 128) : upperChar c = [c.toUpper] := by
  by_cases letter : 97 ≤ c.toNat ∧ c.toNat ≤ 122
  · have each : ∀ code < 123, 97 ≤ code → upperChar (Char.ofNat code) = [(Char.ofNat code).toUpper] := by decide
    simpa only [Char.ofNat_toNat] using each c.toNat (by omega) letter.1
  · have unmoved : upperRuns.find? (·.covers c.toNat) = none := by
      rw [List.find?_eq_none]
      intro run member covered
      simp only [CaseRun.covers,Bool.and_eq_true,decide_eq_true_eq] at covered
      rcases List.mem_cons.mp (member : run ∈ ⟨97, 122, 1, -32⟩ :: upperRuns.tail) with rfl | later
      · exact letter covered.1
      · have := tables_above_ascii.1 run later
        omega
    have single : upperSequences.lookup c.toNat = none := by
      rw [List.lookup_eq_none_iff]
      intro sequence member
      have := tables_above_ascii.2 sequence member
      simp only [bne_iff_ne,ne_eq]
      omega
    unfold upperChar
    simp only [unmoved,single,toUpper_eq_self letter]

theorem toList_upper (ascii : ∀ c ∈ text.toList, c.toNat < 128) : (upper text).toList = text.toList.map Char.toUpper := by
  rw [upper,String.toList_ofList,List.flatMap_congr fun c member => upperChar_ascii (ascii c member),List.map_eq_flatMap]

theorem upper_eq_of_toList (ascii : ∀ c ∈ text.toList, c.toNat < 128)
    (same : text.toList.map Char.toUpper = other.toList) : upper text = other := by
  rw [← String.toList_inj,toList_upper ascii,same]

theorem upper_eq_upper_iff (ascii : ∀ c ∈ text.toList, c.toNat < 128)
    (otherAscii : ∀ c ∈ other.toList, c.toNat < 128) : upper text = upper other ↔ text.toLower = other.toLower := by
  have lowered (word : String) : (word.toList.map Char.toUpper).map Char.toLower = word.toList.map Char.toLower := by
    rw [List.map_map]
    exact List.map_congr_left fun c _ => toLower_toUpper c
  have raised (word : String) : (word.toList.map Char.toLower).map Char.toUpper = word.toList.map Char.toUpper := by
    rw [List.map_map]
    exact List.map_congr_left fun c _ => toUpper_toLower c
  rw [← String.toList_inj,toList_upper ascii,toList_upper otherAscii,String.toLower,String.toLower,← String.toList_inj,
    String.toList_map,String.toList_map]
  constructor
  · intro same
    rw [← lowered text,same,lowered other]
  · intro same
    rw [← raised text,same,raised other]

end Text

/-! ### The name of the list -/

namespace Symbols

theorem listName_eq_overflow_iff {symbols : Symbols} (grown : Grows {} symbols) (name : String) :
    (symbols.listName name).1 = "ARR0" ↔ Text.upper name = overflowList := by
  have upper : Text.upper overflowList = overflowList := Text.upper_eq_of_toList (by decide) (by decide)
  have entered : ({} : Symbols).listName overflowList = ("ARR0",{}) := by
    rw [listName,upper]
    cbv
  have later : Grows (({} : Symbols).listName overflowList).2 symbols := by rwa [entered]
  have shared := listName_later later name
  rwa [entered,upper] at shared

theorem listName_temporaryName {symbols : Symbols} (grown : Grows {} symbols) (k : Nat) :
    (symbols.listName (temporaryName k)).1 ≠ "ARR0" := by
  rw [Ne,listName_eq_overflow_iff grown,← String.toList_inj]
  have mark : Text.upperChar '@' = ['@'] := Text.upperChar_ascii (by decide)
  rw [Text.upper,String.toList_ofList,temporaryName,String.toList_append,List.flatMap_append]
  change ¬Text.upperChar '@' ++ _ = _
  rw [mark]
  exact fun same => absurd (List.cons.inj same).1 (by decide)

end Symbols

namespace Emit
open CalcBasic.Action Symbols

theorem outcome_scalarCode {emitter : Emitter} (grown : Grows {} emitter.symbols) (name : String) :
    (outcome (scalarCode name) emitter).1 = .ok (emitter.symbols.home name).code := by
  have queried : outcome (query (·.slot name)) emitter =
      (.ok (emitter.symbols.home name),{ emitter with symbols := (emitter.symbols.slot name).2 }) := rfl
  unfold scalarCode
  rw [outcome_bind_ok queried]
  cases housed : emitter.symbols.home name with
  | letter letter => rfl
  | overflow index =>
    have listed := listName_overflow (grown.trans (slot_extends emitter.symbols name).grows).lists
    change Except.ok ("∟" ++ ((emitter.symbols.slot name).2.listName overflowList).1 ++ "(" ++ toString index ++ ")") = _
    rw [listed]
    rfl

theorem code_ne_overflowList (symbols : Symbols) (name : String) : (symbols.home name).code ≠ "∟ARR0" := by
  have letters : ∀ letter ∈ alphabet, letter.toString ≠ "∟ARR0" := by decide
  cases housed : symbols.home name with
  | letter letter => exact letters letter (home_mem housed)
  | overflow index =>
    intro same
    have sizes := congrArg String.length same
    rw [Slot.code,String.length_append,String.length_append] at sizes
    have opened : "∟ARR0(".length = "∟ARR0".length + 1 := by decide
    omega

theorem textName_ne_overflowList (symbols : Symbols) (name : String) : (symbols.textName name).1 ≠ some "∟ARR0" := by
  have texts : ∀ number < textVariables, textVariable number ≠ "∟ARR0" := by decide
  intro given
  obtain ⟨room,named⟩ := (textName_eq_some_iff symbols name "∟ARR0").mp given
  exact texts _ room named

/-- A variable is rendered as the list behind the scalars if and only if it is a list
with the name of that list. -/
theorem variableCode_eq_overflowList_iff {emitter : Emitter} (grown : Grows {} emitter.symbols) (name : String) :
    (outcome (variableCode name) emitter).1 = .ok "∟ARR0" ↔
      emitter.symbols.type name = .list ∧ Text.upper name = overflowList := by
  have asked : outcome (get : Emit Emitter) emitter = (.ok emitter,emitter) := rfl
  have scalar : (outcome (scalarCode name) emitter).1 ≠ .ok "∟ARR0" := by
    rw [outcome_scalarCode grown]
    exact fun same => code_ne_overflowList emitter.symbols name (Except.ok.inj same)
  rw [← listName_eq_overflow_iff grown]
  unfold variableCode
  rw [outcome_bind_ok asked]
  cases typed : emitter.symbols.type name with
  | list =>
    change Except.ok ("∟" ++ (emitter.symbols.listName name).1) = .ok ("∟" ++ "ARR0") ↔ _
    rw [Except.ok.injEq,String.append_right_inj]
    exact (and_iff_right rfl).symm
  | text =>
    refine iff_of_false ?_ (fun both => ValueType.noConfusion both.1)
    have queried : outcome (query (·.textName name)) emitter =
        (.ok (emitter.symbols.textName name).1,{ emitter with symbols := (emitter.symbols.textName name).2 }) := rfl
    have other := textName_ne_overflowList emitter.symbols name
    unfold textCode
    dsimp only
    rw [outcome_bind_ok queried]
    cases given : (emitter.symbols.textName name).1 with
    | none => exact fun failed => nomatch failed
    | some code =>
      rw [given] at other
      exact fun same => other (congrArg some (Except.ok.inj same))
  | number | boolean => exact iff_of_false scalar (fun both => ValueType.noConfusion both.1)

end Emit

open CalcBasic.Action Symbols in
/-- Scalars past the alphabet are elements of the list `ARR0`, at every moment of the
emission. Of all names, no temporary and not the selector stands for that list; an
identifier does if and only if it is `__globals`, and is then rendered as it when it is
a list. -/
theorem overflow_list_shared_iff (settings : Settings) (source : String) (emitter : Emitter)
    (reached : Emit.Edits (Compilation.ofSource settings source).afterReading emitter.symbols) :
    (∀ name index, emitter.symbols.home name = .overflow index →
      (outcome (Emit.scalarCode name) emitter).1 = .ok ("∟ARR0(" ++ toString index ++ ")")) ∧
    (∀ token ∈ Token.scan settings.lex.preserve source, token.tag = .identifier →
      ((emitter.symbols.listName token.text).1 = "ARR0" ↔ token.text.toLower = "__globals") ∧
      ((outcome (Emit.variableCode token.text) emitter).1 = .ok "∟ARR0" ↔
        emitter.symbols.type token.text = .list ∧ token.text.toLower = "__globals")) ∧
    (∀ k, (emitter.symbols.listName (temporaryName k)).1 ≠ "ARR0") ∧
    (emitter.symbols.listName selector).1 ≠ "ARR0" ∧
    Emit.Edits (Compilation.ofSource settings source).afterReading (Compilation.ofSource settings source).symbols := by
  have grown := (Compilation.afterReading_grows settings source).trans (extends_of_emit _ _ reached).grows
  refine ⟨?_, ?_, listName_temporaryName grown, ?_, Compilation.edits_symbols settings source⟩
  · intro name index housed
    rw [Emit.outcome_scalarCode grown,housed]
    rfl
  · intro token scanned named
    have ascii c member := Lexeme.lt_of_isWordPart (Token.isWordPart_of_mem_scan scanned named c member)
    have folded : Text.upper token.text = overflowList ↔ token.text.toLower = "__globals" := by
      have same : Text.upper token.text = Text.upper "__globals" ↔ token.text.toLower = "__globals".toLower :=
        Text.upper_eq_upper_iff ascii (by decide)
      have upper : Text.upper "__globals" = overflowList := Text.upper_eq_of_toList (by decide) (by decide)
      have lower : "__globals".toLower = "__globals" := by cbv
      rwa [upper,lower] at same
    rw [listName_eq_overflow_iff grown,Emit.variableCode_eq_overflowList_iff grown,folded]
    exact ⟨Iff.rfl, Iff.rfl⟩
  · rw [Ne,listName_eq_overflow_iff grown,← String.toList_inj,Text.toList_upper (by decide)]
    decide

open CalcBasic.Action Symbols in
theorem overflow_list_of_namesake :
    let source := "__globals = [n];"
    let emitter : Emitter :=
      { symbols := (Compilation.ofSource {} source).symbols, modern := true, folding := true, program := "" }
    Emit.Edits (Compilation.ofSource {} source).afterReading emitter.symbols ∧
      ⟨.identifier,"__globals",1⟩ ∈ Token.scan false source ∧
      (outcome (Emit.variableCode "__globals") emitter).1 = .ok "∟ARR0" ∧
      (emitter.symbols.listName "n").1 ≠ "ARR0" := by
  intro source emitter
  have reached := Compilation.edits_symbols {} source
  have scanned : ⟨.identifier,"__globals",1⟩ ∈ Token.scan false source ∧ ⟨.identifier,"n",1⟩ ∈ Token.scan false source := by
    decide +kernel
  have typed : emitter.symbols.type "__globals" = .list := by decide +kernel
  obtain ⟨_,lists,_⟩ := overflow_list_shared_iff {} source emitter reached
  refine ⟨reached, scanned.1, ?_, ?_⟩
  · exact (lists _ scanned.1 rfl).2.mpr ⟨typed, by cbv⟩
  · intro shared
    exact absurd ((lists _ scanned.2 rfl).1.mp shared) (by cbv)

/-- The last of many scalars is read from the list that the same line overwrites. -/
theorem overflow_list_overwritten :
    (compile {} "__globals = [a,b,c,d,e,f,g,h,i,j,k,l,m,n,o,p,q,r,s,t,u,v,w,x,y,z,aa];").toOption.map Compiled.code =
      some "\x7bB,C,D,E,F,G,H,I,J,K,L,M,N,O,P,Q,R,S,T,U,V,W,X,Y,Z,θ,∟ARR0(1→∟ARR0" := by
  decide +kernel

end CalcBasic
