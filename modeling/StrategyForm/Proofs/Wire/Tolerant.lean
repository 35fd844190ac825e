import StrategyForm.Wire.Schema
import StrategyForm.Proofs.Json.Edited

/-!
# What decoding does not see of a schema

For each record that a form is made of: which of its values have several spellings, which say what the record
is without them, and which hold records that may be changed themselves (`leeway`). That this is true of the
record's slots is `shape_lawful`.

Main statement (`decode_edited_or_doubled`): changes of this kind, anywhere and any number of them, leave what
a text is decoded to; a text that gives one slot twice is refused.
-/

namespace StrategyForm
open Json Json.Decoder

namespace Field

def leeway : String → Leeway
  | "type" => { Respelt := Reworded [["multiselect", "multi_select"]] }
  | "label" => { Spare := (· = .string (some "")) }
  | "description" | "default" | "min" | "max" | "condition" => { Spare := (· = .null) }
  | "options" => { Spare := (· = .array [] none) }
  | "required" => { Spare := (· = .bool false) }
  | _ => {}

def shape : Shape Field := ⟨slots, {}, leeway⟩

theorem shape_lawful : shape.Lawful where
  distinct := by decide
  apart := by
    simp only [shape, slots, List.pairwise_cons, List.forall_mem_cons]
    repeat' apply And.intro
    all_goals first | exact apart_of fun _ _ _ => rfl | exact .nil | exact fun _ mem => nomatch mem
  holds := by
    simp only [shape, slots, List.forall_mem_cons]
    refine ⟨.plain, ?_, ?_, .nullable rfl, .nullable rfl, .nullable rfl, .nullable rfl, ?_, .nullable rfl, ?_, nofun⟩
    · exact .of (oneOf_reworded (by decide)) nofun nofun nofun nofun
    · exact .spare_only (fun empty => by obtain rfl := Except.ok.inj empty; rfl) nofun
    · exact .spare_only (fun empty => by rw [list_nil empty]) nofun
    · exact .spare_only (fun empty => by obtain rfl := Except.ok.inj empty; rfl) nofun

end Field

namespace Category

/-- The two spellings of each category that servers send. -/
def spellings : List (List String) := all.map fun c => [c.word, c.label]

theorem ofWord?_spellings : ∀ group ∈ spellings, ∀ w ∈ group, ∀ w' ∈ group, ofWord? w = ofWord? w' := by decide

end Category

namespace Fragment

def leeway : String → Leeway
  | "category" => { Respelt := Reworded Category.spellings, Spare := (· = .null) }
  | "description" | "order" => { Spare := (· = .null) }
  | "fields" => { Leeway.records Field.shape with Spare := (· = .array [] none) }
  | "dependencies" => { Spare := (· = .array [] none) }
  | _ => {}

def shape : Shape Fragment := ⟨slots, { id := "", name := "" }, leeway⟩

theorem shape_lawful : shape.Lawful where
  distinct := by decide
  apart := by
    simp only [shape, slots, List.pairwise_cons, List.forall_mem_cons]
    repeat' apply And.intro
    all_goals first | exact apart_of fun _ _ _ => rfl | exact .nil | exact fun _ mem => nomatch mem
  holds := by
    simp only [shape, slots, List.forall_mem_cons]
    refine ⟨.plain, .plain, .nullable rfl, ?_, .nullable rfl, .records_or_none Field.shape_lawful rfl, ?_, nofun⟩
    · refine .of (optional_reworded (oneOf_reworded Category.ofWord?_spellings)) (fun _ => rfl) (fun null found => ?_)
        (fun _ _ => ⟨none, rfl⟩) nofun
      subst null
      obtain rfl := Except.ok.inj found
      rfl
    · exact .spare_only (fun empty => by rw [list_nil empty]) nofun

end Fragment

namespace FragmentRef

def leeway : String → Leeway
  | "required" => { Spare := (· = .bool false) }
  | "order" => { Spare := (· = .null) }
  | _ => {}

def shape : Shape FragmentRef := ⟨slots, { id := "" }, leeway⟩

theorem shape_lawful : shape.Lawful where
  distinct := by decide
  apart := by
    simp only [shape, slots, List.pairwise_cons, List.forall_mem_cons]
    repeat' apply And.intro
    all_goals first | exact apart_of fun _ _ _ => rfl | exact .nil | exact fun _ mem => nomatch mem
  holds := by
    simp only [shape, slots, List.forall_mem_cons]
    refine ⟨.plain, ?_, .nullable rfl, nofun⟩
    exact .spare_only (fun no => by obtain rfl := Except.ok.inj no; rfl) nofun

end FragmentRef

namespace Schema

def leeway : String → Leeway
  | "description" | "defaults" => { Spare := (· = .null) }
  | "category" => { Spare := (· = .string (some "")) }
  | "fragments" => { Leeway.records FragmentRef.shape with Spare := (· = .array [] none) }
  | "custom_fields" => { Leeway.records Field.shape with Spare := (· = .array [] none) }
  | _ => {}

def shape : Shape Schema := ⟨slots, { id := "", name := "" }, leeway⟩

theorem shape_lawful : shape.Lawful where
  distinct := by decide
  apart := by
    simp only [shape, slots, List.pairwise_cons, List.forall_mem_cons]
    repeat' apply And.intro
    all_goals first | exact apart_of fun _ _ _ => rfl | exact .nil | exact fun _ mem => nomatch mem
  holds := by
    simp only [shape, slots, List.forall_mem_cons]
    refine ⟨.plain, .plain, .nullable rfl, ?_, .records_or_none FragmentRef.shape_lawful rfl,
      .records_or_none Field.shape_lawful rfl, .nullable rfl, nofun⟩
    exact .spare_only (fun empty => by obtain rfl := Except.ok.inj empty; rfl) nofun

end Schema

namespace Section

def leeway : String → Leeway
  | "description" => { Spare := (· = .null) }
  | "fields" => Leeway.records Field.shape
  | _ => {}

def shape : Shape Section := ⟨slots, default, leeway⟩

theorem shape_lawful : shape.Lawful where
  distinct := by decide
  apart := by
    simp only [shape, slots, List.pairwise_cons, List.forall_mem_cons]
    repeat' apply And.intro
    all_goals first | exact apart_of fun _ _ _ => rfl | exact .nil | exact fun _ mem => nomatch mem
  holds := by
    simp only [shape, slots, List.forall_mem_cons]
    exact ⟨.plain, .plain, .nullable rfl, .plain, .plain, .records Field.shape_lawful, .plain, nofun⟩

end Section

/-! ### Texts -/

/-- The records of the wire format that hold what a form is made of. -/
inductive RecordKind where
  | schema
  | fragment
  | fragmentRef
  | field
  | formSection

namespace RecordKind

def Value : RecordKind → Type
  | schema => Schema
  | fragment => Fragment
  | fragmentRef => FragmentRef
  | field => Field
  | formSection => Section

def decoder : (k : RecordKind) → Decoder k.Value
  | schema => Schema.decoder
  | fragment => Fragment.decoder
  | fragmentRef => FragmentRef.decoder
  | field => Field.decoder
  | formSection => Section.decoder

def shape : (k : RecordKind) → Shape k.Value
  | schema => Schema.shape
  | fragment => Fragment.shape
  | fragmentRef => FragmentRef.shape
  | field => Field.shape
  | formSection => Section.shape

theorem shape_decoder (k : RecordKind) : k.shape.decoder = k.decoder := by cases k <;> rfl

theorem shape_lawful (k : RecordKind) : k.shape.Lawful := by
  cases k with
  | schema => exact Schema.shape_lawful
  | fragment => exact Fragment.shape_lawful
  | fragmentRef => exact FragmentRef.shape_lawful
  | field => exact Field.shape_lawful
  | formSection => exact Section.shape_lawful

end RecordKind

/-- A text that is decoded goes on to be decoded to the same when its objects are changed, and is refused when one
of them gives a slot twice: as misshapen if the value that comes first is taken, else for that value. -/
theorem decode_edited_or_doubled (k : RecordKind) {text : String} {v : k.Value} (h : decode k.decoder text = .ok v)
    (text' : String) :
    (k.shape.Edited (Doc.read text).doc (Doc.read text').doc → (Doc.read text').trailing = false →
      decode k.decoder text' = .ok v) ∧
    ∀ mistake, k.shape.DoubledIn levels (Doc.read text).doc (Doc.read text').doc mistake →
      decode k.decoder text' = .error mistake := by
  have decoded : k.shape.decoder levels (Doc.read text).doc = .ok v := by
    rw [k.shape_decoder]
    simp only [decode] at h
    split at h
    · cases h
    · rename_i found
      split at h
      · cases h
      · rw [← Except.ok.inj h, found]
  refine ⟨fun edited ends => ?_, fun mistake doubled => ?_⟩
  · have kept := k.shape_lawful.edited edited decoded
    rw [k.shape_decoder] at kept
    simp only [decode, kept, ends]
    rfl
  · have met := k.shape_lawful.doubledIn doubled decoded
    rw [k.shape_decoder] at met
    simp only [decode, met]

/-- Reordered, renamed, respelt, with a default dropped, a `null` and an unknown member added; and with the kind
given twice. -/
theorem decode_edited_or_doubled_of_choice :
    let known := Json.object [("name", .string "n"), ("type", .string "multiselect"), ("label", .string "")]
    let edited := Json.object
      [("x", .array [.object [("y", .null)]]), ("min", .null), ("field_type", .string "multi_select"),
        ("name", .string "n")]
    let doubled := Json.object
      [("name", .string "n"), ("type", .string "multiselect"), ("label", .string ""), ("field_type", .bool true)]
    decode Field.decoder known.compress = .ok { name := "n", kind := .multiSelect } ∧
    decode Field.decoder edited.compress = .ok { name := "n", kind := .multiSelect } ∧
    decode Field.decoder doubled.compress = .error .misshapen := by
  intro known edited doubled
  have given : decode Field.decoder known.compress = .ok { name := "n", kind := .multiSelect } := by decide +kernel
  have tolerant := (decode_edited_or_doubled .field given edited.compress).1
  have strict := (decode_edited_or_doubled .field given doubled.compress).2
  rw [(read_written known (by decide +kernel)).1] at tolerant strict
  rw [(read_written edited (by decide +kernel)).1] at tolerant
  rw [(read_written doubled (by decide +kernel)).1] at strict
  let name : Option String × Doc := (some "name", .string (some "n"))
  let type (word : String) : Option String × Doc := (some "type", .string (some word))
  let fieldType (word : String) : Option String × Doc := (some "field_type", .string (some word))
  let label : Option String × Doc := (some "label", .string (some ""))
  have kindSlot : need ["type", "field_type"] FieldKind.decoder (fun v f => { f with kind := v }) ∈ Field.slots :=
    .tail _ (.head _)
  have labelSlot : allow "label" Decoder.text (fun v f => { f with label := v }) ∈ Field.slots :=
    .tail _ (.tail _ (.head _))
  have minSlot : allow "min" (optional Decoder.float) (fun v f => { f with min := v }) ∈ Field.slots :=
    .tail _ (.tail _ (.tail _ (.tail _ (.tail _ (.head _)))))
  have reordered : Field.shape.Edit [name, type "multiselect", label] [label, type "multiselect", name] :=
    .reorder (List.reverse_perm [label, type "multiselect", name])
  have dropped : Field.shape.Edit [label, type "multiselect", name] [type "multiselect", name] :=
    .dropSpare labelSlot List.mem_cons_self rfl
  have renamed : Field.shape.Edit [type "multiselect", name] [fieldType "multiselect", name] :=
    .rename kindSlot List.mem_cons_self (.tail _ (.head _))
  have respelt : Field.shape.Edit [fieldType "multiselect", name] [fieldType "multi_select", name] :=
    .respell kindSlot (.tail _ (.head _)) (.word (.head _) (.head _) (.tail _ (.head _)))
  have nulled : Field.shape.Edit [fieldType "multi_select", name]
      [(some "min", .null), fieldType "multi_select", name] :=
    .addNull minSlot List.mem_cons_self rfl (by decide)
  have twice : Field.shape.Twice 126 ([name, type "multiselect", label] ++ [])
      ([name, type "multiselect", label] ++ (some "field_type", .bool true) :: []) .misshapen :=
    .behind kindSlot List.mem_cons_self (.tail _ (.head _)) (.tail _ (.head _))
  refine ⟨given, tolerant (.object ?_) rfl, strict _ (.object twice)⟩
  refine .head reordered (.head dropped (.head renamed (.head respelt (.head nulled (.single ?_)))))
  exact .addUnknown (by decide) rfl

/-- Where the value that comes first is not taken, that is the mistake. -/
theorem kind_ahead_of_kind :
    let known := Json.object [("name", .string "x"), ("type", .string "number")]
    let doubled := Json.object [("name", .string "x"), ("type", .bool true), ("type", .string "number")]
    decode Field.decoder known.compress = .ok { name := "x", kind := .number } ∧
    Field.shape.DoubledIn levels (Doc.read known.compress).doc (Doc.read doubled.compress).doc .malformed ∧
    decode Field.decoder doubled.compress = .error .malformed ∧ Mistake.malformed ≠ .misshapen := by
  intro known doubled
  refine ⟨by decide +kernel, ?_, by decide +kernel, by decide⟩
  rw [(read_written known (by decide +kernel)).1, (read_written doubled (by decide +kernel)).1]
  let name : Option String × Doc := (some "name", .string (some "x"))
  let type : Option String × Doc := (some "type", .string (some "number"))
  let kindSlot : Slot Field := need ["type", "field_type"] FieldKind.decoder fun v f => { f with kind := v }
  have ahead : Field.shape.Twice 126 ([name] ++ [type]) ([name] ++ (some "type", .bool true) :: [type])
      (Shape.aheadMistake (kindSlot.set 126 (.bool true))) :=
    .ahead (.tail _ (.head _)) List.mem_cons_self List.mem_cons_self List.mem_cons_self
  exact .object ahead

end StrategyForm
