import CalcBasic.Compilation
import CalcBasic.Proofs.EmitEdits
import CalcBasic.Proofs.ReadEdits
import Mathlib.Data.List.Basic

/-! Sessions on one symbol table: any sequence of single requests and whole runs of
the reader and the emitter. Whatever a session does, its registries only grow. -/
namespace CalcBasic
open List

inductive Request where
  | reference (name : String)
  | temporary
  | setType (name : String) (type : ValueType)
  | slot (name : String)
  | listName (name : String)
  | textName (name : String)
  | remark (remark : Remark) (line : Option Nat)
  | declare (name : String) (inline : Bool)
  | define (name : String) (inline : Bool) (params : List String) (required : Nat) (body : Tree)
  | read (settings : Settings) (tokens : List Token)
  | program (settings : Settings) (tree : Tree)
  | code (settings : Settings) (tree : Tree)
  | folded (settings : Settings) (tree : Tree)

namespace Request

def after (symbols : Symbols) : Request → Symbols
  | .reference name => symbols.reference name
  | .temporary => symbols.temporary.2
  | .setType name type => symbols.setType name type
  | .slot name => (symbols.slot name).2
  | .listName name => (symbols.listName name).2
  | .textName name => (symbols.textName name).2
  | .remark note line => symbols.remark note line
  | .declare name inline => (symbols.declare name inline).2
  | .define name inline params required body => (symbols.define name inline params required body).2
  | .read settings tokens => (symbols.read settings tokens).2
  | .program settings tree => (symbols.emit settings (Emit.program tree)).2
  | .code settings tree => (symbols.emit settings (Emit.code tree)).2
  | .folded settings tree => (symbols.emit settings (Emit.folded tree)).2

end Request

def Symbols.session (symbols : Symbols) (requests : List Request) : Symbols :=
  requests.foldl Request.after symbols

namespace Numbering

variable (numbering : Numbering) (key : String)

theorem number_fst : (numbering.number key).1 = numbering.idxOf key := by
  unfold number
  split
  · rfl
  · rename_i absent
    rw [contains_iff_mem] at absent
    exact (idxOf_of_notMem absent).symm

theorem number_grows : numbering <+: (numbering.number key).2 := by
  unfold number
  split
  · exact prefix_rfl
  · exact prefix_append _ _

theorem mem_number : key ∈ (numbering.number key).2 := by
  unfold number
  split
  · rename_i present
    exact contains_iff_mem.mp present
  · exact mem_append_right _ (mem_singleton_self key)

theorem number_of_mem {numbering : Numbering} {key : String} (present : key ∈ numbering) :
    numbering.number key = (numbering.idxOf key, numbering) := by
  unfold number
  rw [if_pos (contains_iff_mem.mpr present)]

theorem number_of_not_mem {numbering : Numbering} {key : String} (absent : key ∉ numbering) :
    numbering.number key = (numbering.length, numbering ++ [key]) := by
  unfold number
  rw [if_neg (absent ∘ contains_iff_mem.mp)]

/-- A number belongs to one key, from the moment it is given out. -/
theorem number_later {later : Numbering} (grown : (numbering.number key).2 <+: later) (other : String) :
    (later.number other).1 = (numbering.number key).1 ↔ other = key := by
  have known := mem_number numbering key
  have kept : later.idxOf key = numbering.idxOf key := by
    rw [← grown.idxOf_eq_of_mem known]
    by_cases present : key ∈ numbering
    · rw [number_of_mem present]
    · rw [number_of_not_mem present,idxOf_append_of_notMem present,idxOf_of_notMem present]
      simp
  rw [number_fst,number_fst,← kept,eq_comm,idxOf_inj (grown.mem known),eq_comm]

end Numbering

namespace FunctionTable

variable {table : FunctionTable} {id : Nat}

def keys (table : FunctionTable) : List (String × Nat) := table.users.map fun f => (f.name,f.id)

def id? (table : FunctionTable) (name : String) : Option Nat := (table.user? name).map UserFunction.id

def arguments? (table : FunctionTable) (name : String) : Option String :=
  (table.user? name).map UserFunction.argumentList

theorem id?_eq_find_keys (table : FunctionTable) (name : String) :
    table.id? name = (table.keys.find? (·.1 == name.toLower)).map (·.2) := by
  simp only [id?,user?,keys,find?_map,Option.map_map]
  rfl

theorem declare_grows (table : FunctionTable) (name : String) (inline : Bool) :
    table.keys <+: (table.declare name inline).2.keys := by
  unfold declare
  split
  · exact prefix_rfl
  · simp only [keys,map_append]
    exact prefix_append _ _

theorem define_keys (table : FunctionTable) (name : String) (inline : Bool) (params : List String)
    (required : Nat) (body : Tree) :
    (table.define name inline params required body).2.keys = (table.declare name inline).2.keys := by
  simp only [define,keys,map_map]
  apply map_congr_left
  intro f _
  simp only [Function.comp_apply]
  split <;> rfl

theorem id?_declare (table : FunctionTable) (name : String) (inline : Bool) :
    (table.declare name inline).2.id? name = some (table.declare name inline).1 := by
  unfold declare
  split
  · rename_i f found
    rw [id?,found]
    rfl
  · rename_i absent
    simp only [user?] at absent
    simp only [id?,user?,find?_append,absent,Option.none_or,find?_singleton,BEq.rfl,if_true]
    rfl

theorem id?_define (table : FunctionTable) (name : String) (inline : Bool) (params : List String)
    (required : Nat) (body : Tree) :
    (table.define name inline params required body).2.id? name =
      some (table.define name inline params required body).1 := by
  have declared := id?_declare table name inline
  rw [id?_eq_find_keys] at declared ⊢
  rw [define_keys,declared]
  rfl

theorem id?_of_grows {before after : FunctionTable} (grown : before.keys <+: after.keys) {name : String}
    (found : before.id? name = some id) : after.id? name = some id := by
  obtain ⟨more,extended⟩ := grown
  rw [id?_eq_find_keys] at found ⊢
  obtain ⟨entry,first,same⟩ := Option.map_eq_some_iff.mp found
  rw [← extended,find?_append,first,Option.some_or,Option.map_some,same]

/-- Every function has its place in the order of declaration as its id. -/
def Sound (table : FunctionTable) : Prop := table.keys.map (·.2) = List.range table.users.length

theorem declare_sound (sound : table.Sound) (name : String) (inline : Bool) : (table.declare name inline).2.Sound := by
  unfold declare
  split
  · exact sound
  · simp only [Sound,keys,map_append,map_map,length_append] at sound ⊢
    rw [sound]
    exact range_succ.symm

theorem define_sound (sound : table.Sound) (name : String) (inline : Bool) (params : List String) (required : Nat)
    (body : Tree) :
    (table.define name inline params required body).2.Sound := by
  have declared := declare_sound sound name inline
  unfold Sound at declared ⊢
  rw [define_keys,declared]
  simp [define]

theorem getElem?_keys (sound : table.Sound) {key : String}
    (present : (key,id) ∈ table.keys) : table.keys[id]? = some (key,id) := by
  obtain ⟨place,atPlace⟩ := mem_iff_getElem?.mp present
  have numbered : (table.keys.map (·.2))[place]? = some id := by
    rw [getElem?_map,atPlace,Option.map_some]
  rw [sound] at numbered
  have same : place = id := by
    have bounded := (List.getElem?_eq_some_iff.mp numbered).1
    rw [getElem?_range (by simpa using bounded)] at numbered
    exact Option.some.inj numbered
  rw [← same,atPlace,same]

theorem id?_injective (sound : table.Sound) {name other : String} (found : table.id? name = some id)
    (alike : table.id? other = some id) :
    other.toLower = name.toLower := by
  have entry {word : String} (given : table.id? word = some id) : table.keys[id]? = some (word.toLower,id) := by
    rw [id?_eq_find_keys] at given
    obtain ⟨⟨key,number⟩,first,same⟩ := Option.map_eq_some_iff.mp given
    have matching : key = word.toLower := by simpa using find?_some first
    subst same matching
    exact getElem?_keys sound (mem_of_find?_eq_some first)
  have both := (entry alike).symm.trans (entry found)
  exact congrArg Prod.fst (Option.some.inj both)

end FunctionTable

/-! ### Growth -/

namespace Symbols

variable (symbols : Symbols) (name : String)

structure Grows (before after : Symbols) : Prop where
  ranking : ∀ ranks ∈ before.ranking, ∃ more ∈ after.ranking, ranks <+: more
  lists : before.lists <+: after.lists
  texts : before.texts <+: after.texts
  functions : before.functions.keys <+: after.functions.keys
  diagnostics : before.diagnostics <+: after.diagnostics

structure Sound (symbols : Symbols) : Prop where
  distinct : symbols.texts.Nodup
  fitting : symbols.texts.length ≤ textVariables
  lowered : ∀ key ∈ symbols.texts, ∃ name : String, name.toLower = key
  functions : symbols.functions.Sound

/-- What every step of a session does. -/
structure Extends (before after : Symbols) : Prop where
  grows : Grows before after
  sound : Sound before → Sound after

theorem Grows.refl : Grows symbols symbols :=
  ⟨fun ranks settled => ⟨ranks, settled, prefix_rfl⟩, prefix_rfl, prefix_rfl,
    prefix_rfl, prefix_rfl⟩

theorem Grows.trans {before middle after : Symbols} (first : Grows before middle)
    (second : Grows middle after) : Grows before after := by
  refine ⟨?_, first.lists.trans second.lists, first.texts.trans second.texts,
    first.functions.trans second.functions, first.diagnostics.trans second.diagnostics⟩
  intro ranks settled
  obtain ⟨more,atMiddle,shorter⟩ := first.ranking ranks settled
  obtain ⟨most,atEnd,longer⟩ := second.ranking more atMiddle
  exact ⟨most, atEnd, shorter.trans longer⟩

instance : Std.Refl Extends := ⟨fun symbols => ⟨.refl symbols, id⟩⟩

instance : IsTrans Symbols Extends :=
  ⟨fun _ _ _ first second => ⟨first.grows.trans second.grows, second.sound ∘ first.sound⟩⟩

theorem sound_empty : Sound {} :=
  ⟨nodup_nil, Nat.zero_le _, fun _ member => absurd member not_mem_nil, rfl⟩

theorem extends_of_same {before after : Symbols} (ranking : after.ranking = before.ranking)
    (lists : after.lists = before.lists) (texts : after.texts = before.texts)
    (functions : after.functions = before.functions)
    (diagnostics : after.diagnostics = before.diagnostics) : Extends before after := by
  constructor
  · constructor
    · simpa only [ranking] using (Grows.refl before).ranking
    · exact lists ▸ prefix_rfl
    · exact texts ▸ prefix_rfl
    · exact functions ▸ prefix_rfl
    · exact diagnostics ▸ prefix_rfl
  · rintro ⟨distinct,fitting,lowered,numbered⟩
    exact ⟨by rwa [texts], by rwa [texts], by rwa [texts], by rwa [functions]⟩

theorem reference_extends : Extends symbols (symbols.reference name) := by
  unfold reference
  split
  · exact extends_of_same rfl rfl rfl rfl rfl
  · exact extends_of_same rfl rfl rfl rfl rfl

theorem setType_extends (type : ValueType) : Extends symbols (symbols.setType name type) :=
  extends_of_same rfl rfl rfl rfl rfl

theorem temporary_extends : Extends symbols symbols.temporary.2 :=
  IsTrans.trans _ { symbols with temporaries := symbols.temporaries + 1 } _
    (extends_of_same rfl rfl rfl rfl rfl) (reference_extends _ _)

theorem slot_extends : Extends symbols (symbols.slot name).2 := by
  refine ⟨{ Grows.refl symbols with ranking := ?_ }, fun sound => { sound with }⟩
  -- once the ranking is settled a query can only add to its end
  intro ranks settled
  refine ⟨_, rfl, ?_⟩
  rw [Option.mem_def.mp settled]
  exact Numbering.number_grows ranks name.toLower

theorem listName_extends : Extends symbols (symbols.listName name).2 :=
  ⟨{ Grows.refl symbols with lists := Numbering.number_grows _ _ }, fun sound => { sound with }⟩

theorem textName_cases : (symbols.textName name).2 = symbols ∨
      name.toLower ∉ symbols.texts ∧ symbols.texts.length < textVariables ∧
        (symbols.textName name).2 = { symbols with texts := symbols.texts ++ [name.toLower] } := by
  unfold textName
  by_cases present : name.toLower ∈ symbols.texts
  · left
    rw [Numbering.number_of_mem present]
    dsimp only
    split <;> rfl
  · rw [Numbering.number_of_not_mem present]
    dsimp only
    split
    · rename_i room
      exact .inr ⟨present, room, rfl⟩
    · exact .inl rfl

theorem textName_extends : Extends symbols (symbols.textName name).2 := by
  rcases textName_cases symbols name with same | ⟨fresh,room,added⟩
  · rw [same]
    exact Std.Refl.refl symbols
  · rw [added]
    refine ⟨{ Grows.refl symbols with texts := prefix_append _ _ }, ?_⟩
    rintro ⟨distinct,_,lowered,functions⟩
    refine ⟨?_, ?_, ?_, functions⟩
    · exact nodup_append.mpr ⟨distinct, pairwise_singleton _ _, by
        intro key member other last
        rw [mem_singleton.mp last]
        exact ne_of_mem_of_not_mem member fresh⟩
    · rw [length_append]
      exact room
    · intro key member
      rcases mem_append.mp member with old | new
      · exact lowered key old
      · exact ⟨name, (mem_singleton.mp new).symm⟩

theorem declare_extends (inline : Bool) : Extends symbols (symbols.declare name inline).2 :=
  ⟨{ Grows.refl symbols with functions := FunctionTable.declare_grows _ name inline },
    fun sound => { sound with functions := FunctionTable.declare_sound sound.functions name inline }⟩

theorem define_extends (inline : Bool) (params : List String) (required : Nat) (body : Tree) :
    Extends symbols (symbols.define name inline params required body).2 := by
  refine ⟨{ Grows.refl symbols with functions := ?_ }, fun sound => { sound with functions := ?_ }⟩
  · exact (FunctionTable.declare_grows _ name inline).trans
      (FunctionTable.define_keys _ name inline params required body ▸ prefix_rfl)
  · exact FunctionTable.define_sound sound.functions name inline params required body

theorem remark_extends (remark : Remark) (line : Option Nat) : Extends symbols (symbols.remark remark line) :=
  ⟨{ Grows.refl symbols with diagnostics := prefix_append _ _ }, fun sound => { sound with }⟩

theorem extends_of_read : Read.Edits ≤ Extends := by
  apply Relation.reflTransGen_le_of_le
  intro before after edit
  cases edit with
  | reference name => exact reference_extends before name
  | listType name => exact setType_extends before name .list
  | remark remark line => exact remark_extends before remark line
  | declare name inline => exact declare_extends before name inline
  | define name inline params required body =>
    exact define_extends before name inline params required body

theorem extends_of_emit : Emit.Edits ≤ Extends := by
  apply Relation.reflTransGen_le_of_le
  intro before after edit
  cases edit with
  | temporary => exact temporary_extends before
  | setType name type => exact setType_extends before name type
  | slot name => exact slot_extends before name
  | listName name => exact listName_extends before name
  | textName name => exact textName_extends before name
  | remark remark => exact remark_extends before remark none

theorem emit_extends {α : Type} (settings : Settings) {action : Emit α}
    (moves : Action.Keeps Emit.Moves action) : Extends symbols (symbols.emit settings action).2 := by
  let start : Emitter :=
    { symbols, modern := settings.modern, folding := settings.simplify,
      program := settings.programName }
  exact extends_of_emit _ _ (moves start).symbols

theorem after_extends (request : Request) : Extends symbols (request.after symbols) := by
  cases request with
  | reference name => exact reference_extends symbols name
  | temporary => exact temporary_extends symbols
  | setType name type => exact setType_extends symbols name type
  | slot name => exact slot_extends symbols name
  | listName name => exact listName_extends symbols name
  | textName name => exact textName_extends symbols name
  | remark note line => exact remark_extends symbols note line
  | declare name inline => exact declare_extends symbols name inline
  | define name inline params required body => exact define_extends symbols name inline params required body
  | read settings tokens => exact extends_of_read _ _ (Read.keeps_program settings.dumpUnknown tokens symbols)
  | program settings tree => exact emit_extends symbols settings (Emit.keeps_program tree)
  | code settings tree => exact emit_extends symbols settings (Emit.keeps_code tree)
  | folded settings tree => exact emit_extends symbols settings (Emit.keeps_folded tree)

theorem session_extends (requests : List Request) : Extends symbols (symbols.session requests) := by
  induction requests generalizing symbols with
  | nil => exact Std.Refl.refl symbols
  | cons request rest ih => exact IsTrans.trans _ _ _ (after_extends symbols request) (ih _)

theorem session_sound (requests : List Request) : Sound (session {} requests) :=
  (session_extends {} requests).sound sound_empty

end Symbols
end CalcBasic
