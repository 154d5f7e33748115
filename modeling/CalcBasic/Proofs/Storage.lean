import CalcBasic.Proofs.Session
import Mathlib

/-! Where names live. A session never moves a name and never puts two names in one
place, whatever runs of the reader and the emitter, failed ones too, lie between. -/
namespace CalcBasic

theorem Slot.ofRank_injective {rank other : Nat} (same : Slot.ofRank rank = Slot.ofRank other) :
    rank = other := by
  have distinct : alphabet.Nodup := by decide
  unfold Slot.ofRank at same
  cases here : alphabet[rank]? with
  | none =>
    cases there : alphabet[other]? with
    | none =>
      rw [here,there] at same
      have past := List.getElem?_eq_none_iff.mp here
      have beyond := List.getElem?_eq_none_iff.mp there
      have places : rank - alphabet.length + 1 = other - alphabet.length + 1 := Slot.overflow.inj same
      omega
    | some letter => rw [here,there] at same; cases same
  | some letter =>
    cases there : alphabet[other]? with
    | none => rw [here,there] at same; cases same
    | some second =>
      rw [here,there] at same
      obtain ⟨bounded,_⟩ := List.getElem?_eq_some_iff.mp here
      apply (List.getElem?_inj bounded distinct).mp
      rw [here,there,Slot.letter.inj same]

namespace Number

def ofBase36 (chars : List Char) : Nat :=
  chars.foldl (fun value c => 36 * value + (radixDigit? 36 c).getD 0) 0

theorem radixDigit?_digit : ∀ value < 36, radixDigit? 36 (base36.digit value) = some value := by decide

theorem foldl_base36 (n : Nat) (tail : List Char) :
    (base36.go n tail).foldl (fun value c => 36 * value + (radixDigit? 36 c).getD 0) 0 =
      tail.foldl (fun value c => 36 * value + (radixDigit? 36 c).getD 0) n := by
  fun_induction base36.go n tail with
  | case1 n tail small =>
    rw [List.foldl_cons,radixDigit?_digit n small]
    simp
  | case2 n tail large ih =>
    rw [ih,List.foldl_cons,radixDigit?_digit _ (Nat.mod_lt n (by decide)),Option.getD_some,
      Nat.div_add_mod]

theorem forall_mem_base36 {holds : Char → Prop} (each : ∀ value < 36, holds (base36.digit value)) (n : Nat) :
    ∀ c ∈ (base36 n).toList, holds c := by
  have digits (n : Nat) (tail : List Char) (known : ∀ c ∈ tail, holds c) : ∀ c ∈ base36.go n tail, holds c := by
    fun_induction base36.go n tail with
    | case1 n tail small => exact List.forall_mem_cons.mpr ⟨each n small, known⟩
    | case2 n tail large ih => exact ih (List.forall_mem_cons.mpr ⟨each (n % 36) (Nat.mod_lt _ (by decide)), known⟩)
  rw [base36,String.toList_ofList]
  exact digits n [] (by simp)

theorem base36_injective {m n : Nat} (same : base36 m = base36 n) : m = n := by
  have digits : base36.go m [] = base36.go n [] := String.ofList_injective same
  have values := congrArg ofBase36 digits
  simpa only [ofBase36,foldl_base36,List.foldl_nil] using values

end Number

namespace Symbols

variable {symbols later : Symbols} {name : String}

/-! ### Scalars and lists -/

theorem slot_later (grown : Grows (symbols.slot name).2 later)
    (other : String) : (later.slot other).1 = (symbols.slot name).1 ↔ other.toLower = name.toLower := by
  obtain ⟨ranks,settled,longer⟩ := grown.ranking _ rfl
  rw [← Numbering.number_later _ name.toLower longer other.toLower]
  unfold slot
  rw [Option.mem_def.mp settled,Option.getD_some]
  exact ⟨Slot.ofRank_injective, congrArg Slot.ofRank⟩

theorem listName_later (grown : Grows (symbols.listName name).2 later) (other : String) :
    (later.listName other).1 = (symbols.listName name).1 ↔ Text.upper other = Text.upper name := by
  rw [← Numbering.number_later _ (Text.upper name) grown.lists (Text.upper other)]
  unfold listName
  rw [String.append_right_inj]
  exact ⟨Number.base36_injective, congrArg Number.base36⟩

/-! ### Texts -/

def textVariable (number : Nat) : String := "Str" ++ toString ((number + 1) % textVariables)

theorem textVariable_injective : ∀ number < textVariables, ∀ other < textVariables,
    textVariable other = textVariable number → other = number := by decide

theorem textName_eq_some_iff (symbols : Symbols) (name home : String) :
    (symbols.textName name).1 = some home ↔
      symbols.texts.idxOf name.toLower < textVariables ∧
        textVariable (symbols.texts.idxOf name.toLower) = home := by
  unfold textName
  rw [← Numbering.number_fst]
  dsimp only
  split
  · rename_i room
    simp only [Option.some.injEq,room,true_and,textVariable]
  · rename_i full
    simp only [reduceCtorEq,full,false_and]

theorem mem_texts_of_some {home : String}
    (given : (symbols.textName name).1 = some home) : name.toLower ∈ (symbols.textName name).2.texts := by
  have room := ((textName_eq_some_iff symbols name home).mp given).1
  rw [← Numbering.number_fst] at room
  have known := Numbering.mem_number symbols.texts name.toLower
  unfold textName
  dsimp only
  rw [if_pos room]
  exact known

theorem textName_later {home : String} (given : (symbols.textName name).1 = some home)
    (grown : Grows (symbols.textName name).2 later)
    (other : String) : (later.textName other).1 = some home ↔ other.toLower = name.toLower := by
  have known := mem_texts_of_some given
  obtain ⟨room,named⟩ := (textName_eq_some_iff symbols name home).mp given
  have kept : later.texts.idxOf name.toLower = symbols.texts.idxOf name.toLower := by
    rw [← grown.texts.idxOf_eq_of_mem known]
    rcases textName_cases symbols name with same | ⟨fresh,_,added⟩
    · rw [same]
    · rw [added,List.idxOf_append_of_notMem fresh,List.idxOf_of_notMem fresh]
      simp
  rw [textName_eq_some_iff,← named,← kept]
  constructor
  · rintro ⟨bounded,alike⟩
    have places := textVariable_injective _ (kept ▸ room) _ bounded alike
    exact ((List.idxOf_inj (grown.texts.mem known)).mp places.symm).symm
  · intro same
    rw [same]
    exact ⟨kept ▸ room, rfl⟩

theorem texts_full (sound : Sound symbols) (refused : (symbols.textName name).1 = none) :
    symbols.texts.length = textVariables ∧ name.toLower ∉ symbols.texts := by
  have full : ¬symbols.texts.idxOf name.toLower < textVariables := by
    intro room
    have given := (textName_eq_some_iff symbols name _).mpr ⟨room, rfl⟩
    rw [refused] at given
    cases given
  have fitting := sound.fitting
  have bounded : symbols.texts.idxOf name.toLower ≤ symbols.texts.length := List.idxOf_le_length
  refine ⟨by omega, fun present => full ?_⟩
  have inside := List.idxOf_lt_length_of_mem present
  omega

theorem textName_of_mem (present : name.toLower ∈ symbols.texts) (room : symbols.texts.idxOf name.toLower < textVariables) :
    symbols.textName name = (some (textVariable (symbols.texts.idxOf name.toLower)),symbols) := by
  unfold textName
  rw [Numbering.number_of_mem present]
  dsimp only
  rw [if_pos room]
  rfl

theorem holder_of_full (sound : Sound symbols) (full : symbols.texts.length = textVariables) {number : Nat}
    (bounded : number < textVariables) :
    ∃ other : String, other.toLower ∈ symbols.texts ∧
      symbols.textName other = (some (textVariable number),symbols) := by
  rw [← full] at bounded
  obtain ⟨other,lowered⟩ := sound.lowered _ (List.getElem_mem bounded)
  have place : symbols.texts.idxOf other.toLower = number := by
    rw [lowered]
    exact sound.distinct.idxOf_getElem number bounded
  have present : other.toLower ∈ symbols.texts := lowered ▸ List.getElem_mem bounded
  refine ⟨other, present, ?_⟩
  rw [textName_of_mem present (by omega),place]

theorem textVariable_surjective : ∀ digit < textVariables, ∃ number < textVariables,
    textVariable number = "Str" ++ toString digit := by decide

theorem textName_eq_none_iff (sound : Sound symbols) (name : String) :
    (symbols.textName name).1 = none ↔ ∀ digit < textVariables, ∃ other : String,
      other.toLower ≠ name.toLower ∧ symbols.textName other = (some ("Str" ++ toString digit),symbols) := by
  constructor
  · intro refused digit bounded
    obtain ⟨full,absent⟩ := texts_full sound refused
    obtain ⟨number,inside,named⟩ := textVariable_surjective digit bounded
    obtain ⟨other,present,holds⟩ := holder_of_full sound full inside
    exact ⟨other, ne_of_mem_of_not_mem present absent, named ▸ holds⟩
  · -- the digit that the name would get has another holder, and no two names share one
    intro taken
    by_contra given
    obtain ⟨home,given⟩ := Option.ne_none_iff_exists'.mp given
    obtain ⟨room,named⟩ := (textName_eq_some_iff symbols name home).mp given
    obtain ⟨other,different,holds⟩ := taken _ (Nat.mod_lt (symbols.texts.idxOf name.toLower + 1) (by decide))
    have shared : (symbols.textName other).1 = some home := by rw [holds,← named]; rfl
    have unchanged : (symbols.textName other).2 = symbols := by rw [holds]
    have later : Grows (symbols.textName other).2 symbols := by
      rw [unchanged]
      exact .refl symbols
    exact different.symm ((textName_later shared later name).mp given)

theorem textName_of_none (refused : (symbols.textName name).1 = none) : (symbols.textName name).2 = symbols := by
  unfold textName at refused ⊢
  dsimp only at refused ⊢
  split
  · rename_i room
    rw [if_pos room] at refused
    cases refused
  · rfl

/-! ### Functions -/

theorem id?_later (sound : Sound later) (grown : Grows symbols later) {id : Nat} (found : symbols.functions.id? name = some id)
    (other : String) :
    later.functions.id? other = some id ↔ other.toLower = name.toLower := by
  have kept := FunctionTable.id?_of_grows grown.functions found
  constructor
  · exact FunctionTable.id?_injective sound.functions kept
  · intro same
    rw [FunctionTable.id?_eq_find_keys] at kept ⊢
    rw [same,kept]

theorem arguments?_eq_map_id? (table : FunctionTable) (name : String) :
    table.arguments? name = (table.id? name).map fun id => "ARG" ++ Number.base36 id := by
  rw [FunctionTable.arguments?,FunctionTable.id?,Option.map_map]
  rfl

theorem arguments?_eq_iff (table : FunctionTable) (name : String) (id : Nat) :
    table.arguments? name = some ("ARG" ++ Number.base36 id) ↔ table.id? name = some id := by
  rw [arguments?_eq_map_id?,Option.map_eq_some_iff]
  constructor
  · rintro ⟨number,found,same⟩
    rw [found,Number.base36_injective ((String.append_right_inj "ARG").mp same)]
  · intro found
    exact ⟨id, found, rfl⟩

end Symbols

open Symbols in
theorem storage_stable_and_disjoint (earlier later : List Request) (name other : String) :
    let symbols := session {} earlier
    ((((symbols.slot name).2.session later).slot other).1 = (symbols.slot name).1 ↔
      other.toLower = name.toLower) ∧
    ((((symbols.listName name).2.session later).listName other).1 = (symbols.listName name).1 ↔
      Text.upper other = Text.upper name) ∧
    (∀ home, (symbols.textName name).1 = some home →
      ((((symbols.textName name).2.session later).textName other).1 = some home ↔
        other.toLower = name.toLower)) ∧
    ((symbols.textName name).1 = none ↔ ∀ digit < 10, ∃ holder : String,
      holder.toLower ≠ name.toLower ∧
        symbols.textName holder = (some ("Str" ++ toString digit),symbols)) ∧
    ((symbols.textName name).1 = none → (symbols.textName name).2 = symbols) ∧
    (∀ id, symbols.functions.id? name = some id →
      ((symbols.session later).functions.id? other = some id ↔ other.toLower = name.toLower) ∧
      ((symbols.session later).functions.arguments? other = some ("ARG" ++ Number.base36 id) ↔
        other.toLower = name.toLower)) ∧
    (∀ inline, (symbols.declare name inline).2.functions.id? name =
      some (symbols.declare name inline).1) ∧
    (∀ inline params required body, (symbols.define name inline params required body).2.functions.id? name =
      some (symbols.define name inline params required body).1) ∧
    symbols.diagnostics <+: (symbols.session later).diagnostics := by
  intro symbols
  have sound : Sound symbols := session_sound earlier
  have further := session_extends symbols later
  refine ⟨?_, ?_, ?_, ?_, ?_, ?_, ?_, ?_, further.grows.diagnostics⟩
  · exact slot_later (session_extends _ later).grows other
  · exact listName_later (session_extends _ later).grows other
  · intro home given
    exact textName_later given (session_extends _ later).grows other
  · exact textName_eq_none_iff sound name
  · exact textName_of_none
  · intro id found
    have same := id?_later (further.sound sound) further.grows found other
    exact ⟨same, (arguments?_eq_iff _ _ _).trans same⟩
  · exact FunctionTable.id?_declare symbols.functions name
  · intro inline params required body
    exact FunctionTable.id?_define symbols.functions name inline params required body

/-- A session that takes all text variables. -/
def crowded : List Request :=
  .declare "Area" false :: (List.range 10).map fun n => .textName (toString n)

theorem storage_of_crowded :
    let later := [.slot "x", .read {} [⟨.keyword,"function",1⟩], .code {} (.textVar "u"), .declare "sum" true]
    let symbols := Symbols.session {} crowded
    symbols.functions.id? "AREA" = some 0 ∧
      (symbols.session later).functions.id? "sum" ≠ some 0 ∧
      (symbols.session later).functions.arguments? "area" = some ("ARG" ++ Number.base36 0) ∧
      (symbols.textName "7").1 = some "Str8" ∧
      (((symbols.textName "7").2.session later).textName "7").1 = some "Str8" ∧
      (symbols.textName "u").1 = none ∧ (symbols.textName "u").2 = symbols := by
  intro later
  have declared : (Symbols.session {} crowded).functions.id? "AREA" = some 0 := by cbv
  have given : ((Symbols.session {} crowded).textName "7").1 = some "Str8" := by cbv
  have refused : ((Symbols.session {} crowded).textName "u").1 = none := by cbv
  have settled := storage_stable_and_disjoint crowded later
  obtain ⟨_,_,kept,_⟩ := settled "7" "7"
  obtain ⟨_,_,_,_,unchanged,_⟩ := settled "u" "u"
  obtain ⟨_,_,_,_,_,apart,_⟩ := settled "AREA" "sum"
  obtain ⟨_,_,_,_,_,alike,_⟩ := settled "AREA" "area"
  refine ⟨declared, ?_, ?_, given, (kept _ given).mpr rfl, refused, unchanged refused⟩
  · intro same
    exact absurd ((apart 0 declared).1.mp same) (by cbv; decide)
  · exact (alike 0 declared).2.mpr (by cbv)

end CalcBasic
