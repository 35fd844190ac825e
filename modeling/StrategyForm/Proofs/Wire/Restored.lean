import StrategyForm.Settings
import StrategyForm.Wire.Schema
import StrategyForm.Proofs.Json.Rows

/-!
# Decoding undoes writing

Main statement (`decoding_undoes_writing`): for each record that is both read and written, a value that was
decoded from some text is decoded from the text that is written for it.

A reference, a strategy entry and settings are decoded from what is written for them whatever they are. Of
a field, and of what holds fields or defaults, this is true only if it was decoded: a default can be any
value, and a decoded one is not `null`, has its members sorted and has no more brackets than may be opened.
The defaults of a schema come in any order of their keys, since the program writes them from a hash map.
-/

namespace StrategyForm
open Json Json.Decoder Wire

namespace FragmentRef

theorem decoder_doc (r : FragmentRef) (levels : Nat) (reads : AllReadBack r.toJson.floats) :
    decoder (levels + 1) r.toJson.doc = .ok r := by
  rw [toJson] at reads ⊢
  simp only [List.append_assoc] at reads ⊢
  refine record_rows (by decide) ?_ reads
  refine .always (fun _ => text_doc r.id) ?_
  refine .always (fun _ => bool_doc r.required) ?_
  refine .last (.present rfl (fun o _ _ => int64_doc o) (fun _ _ => nofun) rfl ?_)
  exact .done r

end FragmentRef

namespace Field

theorem default_kept {levels : Nat} {doc : Doc} {f : Field} (found : decoder (levels + 1) doc = .ok f) :
    ∃ doc, optional json levels doc = .ok f.default := by
  refine record_induction (P := fun f : Field => ∃ doc, optional json levels doc = .ok f.default)
    ?_ ⟨.null, rfl⟩ found
  -- one slot sets the default, the others leave it as it is
  intro slot mem doc change set r kept
  simp only [slots, List.mem_cons, List.not_mem_nil, or_false] at mem
  rcases mem with rfl | rfl | rfl | rfl | rfl | rfl | rfl | rfl | rfl | rfl <;>
    obtain ⟨a, found, rfl⟩ := map_ok set
  all_goals first | exact kept | exact ⟨doc, found⟩

theorem restores : Restores 2 decoder toJson := by
  intro levels enough doc f found reads
  obtain ⟨levels, rfl⟩ : ∃ k, levels = k + 2 := ⟨levels - 2, by omega⟩
  obtain ⟨doc', kept⟩ := default_kept found
  rw [toJson] at reads ⊢
  simp only [List.append_assoc] at reads ⊢
  refine record_rows (by decide) ?_ reads
  refine .always (fun _ => text_doc f.name) ?_
  refine .always (fun _ => oneOf_doc (FieldKind.ofWord?_word f.kind)) ?_
  refine .always (fun _ => text_doc f.label) ?_
  refine .present rfl (fun s _ _ => text_doc s) (fun _ _ => nofun) rfl ?_
  refine .present Option.map_id' (json_restores.of_optional (Nat.zero_le _) kept)
    (optional_json_nonnull kept) rfl ?_
  refine .present rfl (fun _ _ => float_doc) (fun _ _ => nofun) rfl ?_
  refine .present rfl (fun _ _ => float_doc) (fun _ _ => nofun) rfl ?_
  refine .nonempty (fun _ => list_doc fun s _ => text_doc s) rfl ?_
  refine .present rfl (fun s _ _ => text_doc s) (fun _ _ => nofun) rfl ?_
  refine .always (fun _ => bool_doc f.required) ?_
  exact .done f

end Field

namespace Fragment

theorem fields_kept {levels : Nat} {doc : Doc} {f : Fragment} (found : decoder (levels + 2) doc = .ok f) :
    ∃ doc, Decoder.list Field.decoder (levels + 1) doc = .ok f.fields := by
  refine record_induction
    (P := fun f : Fragment => ∃ doc, Decoder.list Field.decoder (levels + 1) doc = .ok f.fields)
    ?_ ⟨.array [] none, rfl⟩ found
  intro slot mem doc change set r kept
  simp only [slots, List.mem_cons, List.not_mem_nil, or_false] at mem
  rcases mem with rfl | rfl | rfl | rfl | rfl | rfl | rfl <;> obtain ⟨a, found, rfl⟩ := map_ok set
  all_goals first | exact kept | exact ⟨doc, found⟩

theorem restores : Restores 4 decoder toJson := by
  intro levels enough doc f found reads
  obtain ⟨levels, rfl⟩ : ∃ k, levels = k + 4 := ⟨levels - 4, by omega⟩
  obtain ⟨doc', kept⟩ := fields_kept found
  rw [toJson] at reads ⊢
  simp only [List.append_assoc] at reads ⊢
  refine record_rows (by decide) ?_ reads
  refine .always (fun _ => text_doc f.id) ?_
  refine .always (fun _ => text_doc f.name) ?_
  refine .present rfl (fun s _ _ => text_doc s) (fun _ _ => nofun) rfl ?_
  refine .present rfl (fun c _ _ => oneOf_doc (Category.ofWord?_word c)) (fun _ _ => nofun) rfl ?_
  refine .present rfl (fun o _ _ => int64_doc o) (fun _ _ => nofun) rfl ?_
  refine .always (list_restores Field.restores _ (by omega) _ _ kept) ?_
  refine .last (.nonempty (fun _ => list_doc fun s _ => text_doc s) rfl ?_)
  exact .done f

end Fragment

namespace Schema

theorem fields_kept {levels : Nat} {doc : Doc} {s : Schema} (found : decoder (levels + 2) doc = .ok s) :
    (∃ doc, Decoder.list Field.decoder (levels + 1) doc = .ok s.customFields) ∧
      ∃ doc, optional (keyed json) (levels + 1) doc = .ok s.defaults := by
  refine record_induction
    (P := fun s : Schema => (∃ doc, Decoder.list Field.decoder (levels + 1) doc = .ok s.customFields) ∧
      ∃ doc, optional (keyed json) (levels + 1) doc = .ok s.defaults)
    ?_ ⟨⟨.array [] none, rfl⟩, ⟨.null, rfl⟩⟩ found
  intro slot mem doc change set r kept
  simp only [slots, List.mem_cons, List.not_mem_nil, or_false] at mem
  rcases mem with rfl | rfl | rfl | rfl | rfl | rfl | rfl <;> obtain ⟨a, found, rfl⟩ := map_ok set
  all_goals first | exact kept | exact ⟨⟨doc, found⟩, kept.2⟩ | exact ⟨kept.1, ⟨doc, found⟩⟩

theorem restores {order : Keyed Json → List (String × Json)} (perm : ∀ m, (order m).Perm m.entries) :
    Restores 4 decoder (toJsonIn order) := by
  intro levels enough doc s found reads
  obtain ⟨levels, rfl⟩ : ∃ k, levels = k + 4 := ⟨levels - 4, by omega⟩
  obtain ⟨⟨doc', kept⟩, ⟨doc'', kept'⟩⟩ := fields_kept found
  rw [toJsonIn] at reads ⊢
  simp only [List.append_assoc] at reads ⊢
  refine record_rows (by decide) ?_ reads
  refine .always (fun _ => text_doc s.id) ?_
  refine .always (fun _ => text_doc s.name) ?_
  refine .present rfl (fun t _ _ => text_doc t) (fun _ _ => nofun) rfl ?_
  refine .always (fun _ => text_doc s.category) ?_
  refine .always (fun reads => list_doc fun r mem =>
    r.decoder_doc _ (reads.of_mem_items (List.mem_map_of_mem mem))) ?_
  refine .always (list_restores Field.restores _ (by omega) _ _ kept) ?_
  refine .last (.present rfl ((keyed_restores perm).of_optional (by omega) kept') (fun _ _ => nofun) rfl ?_)
  exact .done s

end Schema

namespace Section

theorem fields_kept {levels : Nat} {doc : Doc} {s : Section} (found : decoder (levels + 2) doc = .ok s) :
    ∃ doc, Decoder.list Field.decoder (levels + 1) doc = .ok s.fields := by
  refine record_induction
    (P := fun s : Section => ∃ doc, Decoder.list Field.decoder (levels + 1) doc = .ok s.fields)
    ?_ ⟨.array [] none, rfl⟩ found
  intro slot mem doc change set r kept
  simp only [slots, List.mem_cons, List.not_mem_nil, or_false] at mem
  rcases mem with rfl | rfl | rfl | rfl | rfl | rfl | rfl <;> obtain ⟨a, found, rfl⟩ := map_ok set
  all_goals first | exact kept | exact ⟨doc, found⟩

theorem restores : Restores 4 decoder toJson := by
  intro levels enough doc s found reads
  obtain ⟨levels, rfl⟩ : ∃ k, levels = k + 4 := ⟨levels - 4, by omega⟩
  obtain ⟨doc', kept⟩ := fields_kept found
  rw [toJson] at reads ⊢
  simp only [List.append_assoc] at reads ⊢
  refine record_rows (by decide) ?_ reads
  refine .always (fun _ => text_doc s.id) ?_
  refine .always (fun _ => text_doc s.name) ?_
  refine .present rfl (fun t _ _ => text_doc t) (fun _ _ => nofun) rfl ?_
  refine .always (fun _ => bool_doc s.required) ?_
  refine .always (fun _ => bool_doc s.collapsible) ?_
  refine .always (list_restores Field.restores _ (by omega) _ _ kept) ?_
  refine .always (fun _ => int64_doc s.order) ?_
  exact .done s

end Section

namespace StrategyEntry

theorem decoder_doc (e : StrategyEntry) (levels : Nat) (reads : AllReadBack e.toJson.floats) :
    decoder (levels + 2) e.toJson.doc = .ok e := by
  have texts (ts : List String) : Decoder.list Decoder.text (levels + 1) (ofStrings ts).doc = .ok ts :=
    list_doc fun t _ => text_doc t
  have text? (t : Option String) : optional Decoder.text (levels + 1) (ofText? t).doc = .ok t := by
    cases t <;> rfl
  rw [toJson] at reads ⊢
  simp only [List.append_assoc] at reads ⊢
  refine record_rows (by decide) ?_ reads
  refine .always (fun _ => text_doc e.id) ?_
  refine .always (fun _ => texts e.aliases) ?_
  refine .always (fun _ => text_doc e.name) ?_
  refine .always (fun _ => text_doc e.description) ?_
  refine .always (fun _ => text? e.defaultTimeframe) ?_
  refine .always (fun _ => texts e.secondaryTimeframes) ?_
  refine .always (fun _ => bool_doc e.isMultiTimeframe) ?_
  refine .always (fun _ => text? e.category) ?_
  refine .always (fun _ => texts e.supportedMarkets) ?_
  exact .done e

end StrategyEntry

/-! ### Settings -/

theorem ApiSettings.decoder_doc (s : ApiSettings) (levels : Nat) (reads : AllReadBack s.toJson.floats) :
    decoder (levels + 1) s.toJson.doc = .ok s := by
  rw [toJson] at reads ⊢
  simp only [List.append_assoc] at reads ⊢
  refine record_rows (by decide) ?_ reads
  refine .always (fun _ => text_doc s.baseUrl) ?_
  refine .always (fun _ => uint64_doc s.timeoutSecs) ?_
  refine .always (fun _ => uint32_doc s.maxRetries) ?_
  refine .always (fun _ => uint64_doc s.retryBackoffMs) ?_
  exact .done s

theorem CacheSettings.decoder_doc (s : CacheSettings) (levels : Nat) (reads : AllReadBack s.toJson.floats) :
    decoder (levels + 1) s.toJson.doc = .ok s := by
  refine record_rows (by decide) ?_ reads
  refine .always (fun _ => uint64_doc s.ttlSecs) ?_
  exact .done s

theorem LogSettings.decoder_doc (s : LogSettings) (levels : Nat) (reads : AllReadBack s.toJson.floats) :
    decoder (levels + 1) s.toJson.doc = .ok s := by
  refine record_rows (by decide) ?_ reads
  refine .always (fun _ => text_doc s.level) ?_
  refine .always (fun _ => text_doc s.format) ?_
  exact .done s

theorem Settings.decoder_doc (s : Settings) (levels : Nat) (reads : AllReadBack s.toJson.floats) :
    decoder (levels + 2) s.toJson.doc = .ok s := by
  rw [toJson] at reads ⊢
  simp only [List.append_assoc] at reads ⊢
  refine record_rows (by decide) ?_ reads
  refine .always (s.api.decoder_doc levels) ?_
  refine .always (s.cache.decoder_doc levels) ?_
  refine .always (s.logging.decoder_doc levels) ?_
  exact .done s

/-- Decoding undoes writing, for every record on the wire, and for a schema whatever the order in which its
defaults are written. -/
theorem decoding_undoes_writing :
    (∀ order : Keyed Json → List (String × Json), (∀ m, (order m).Perm m.entries) →
      Undoes Schema.decoder (Schema.toJsonIn order)) ∧
    Undoes Fragment.decoder Fragment.toJson ∧
    Undoes FragmentRef.decoder FragmentRef.toJson ∧
    Undoes Field.decoder Field.toJson ∧
    Undoes Section.decoder Section.toJson ∧
    Undoes StrategyEntry.decoder StrategyEntry.toJson ∧
    Undoes Settings.decoder Settings.toJson := by
  refine ⟨fun order perm => .of_doc ?_, .of_doc ?_, .of_doc ?_, .of_doc ?_, .of_doc ?_, .of_doc ?_, .of_doc ?_⟩
  · exact Schema.restores perm _ (by decide)
  · exact Fragment.restores _ (by decide)
  · exact fun _ r _ => r.decoder_doc 126
  · exact Field.restores _ (by decide)
  · exact Section.restores _ (by decide)
  · exact fun _ e _ => e.decoder_doc 125
  · exact fun _ s _ => s.decoder_doc 125

/-- A schema given as an array, of which the last field has its kind under the other key, as an object, and
a default with keys out of order; the schema's own defaults are written in reverse. -/
theorem decoding_undoes_writing_of_array :
    ∃ s : Schema, s.customFields.map (·.kind) = [.multiSelect] ∧
      decode Schema.decoder ("[\"s\",\"S\",null,\"c\",[[\"f\",true]],[\x7b\"field_type\":" ++
        "\x7b\"multi_select\":null\x7d,\"name\":\"x\",\"min\":0.5,\"default\":\x7b\"b\":1," ++
        "\"a\":[null]\x7d,\"max\":null,\"more\":[1]\x7d],\x7b\"k\":null,\"j\":true\x7d]") = .ok s ∧
      decode Schema.decoder (s.toJsonIn fun m => m.entries.reverse).compress = .ok s ∧
      decode Schema.decoder (s.toJsonIn fun m => m.entries.reverse).pretty = .ok s := by
  let half : Decimal.Binary64 := ⟨false, 0x10000000000000, 1021, by decide, .inl (by decide), by decide⟩
  let s : Schema :=
    { id := "s"
      name := "S"
      category := "c"
      fragments := [.mandatory "f"]
      customFields :=
        [{ name := "x"
           kind := .multiSelect
           default := some (.object [("a", .array [.null]), ("b", .number (.int 1 (by decide)))])
           min := some half }]
      defaults := some ⟨[("j", .bool true), ("k", .null)], by decide⟩ }
  have reads : AllReadBack (s.toJsonIn fun m => m.entries.reverse).floats := by decide +kernel
  have undone {text : String} (found : decode Schema.decoder text = .ok s) :
      decode Schema.decoder text = .ok s ∧
        decode Schema.decoder (s.toJsonIn fun m => m.entries.reverse).compress = .ok s ∧
        decode Schema.decoder (s.toJsonIn fun m => m.entries.reverse).pretty = .ok s := by
    have again := decoding_undoes_writing.1 _ (fun m => m.entries.reverse_perm) text s found reads
    exact ⟨found, (again _ (by simp)).1, (again _ (by simp)).1⟩
  exact ⟨s, rfl, undone (by decide +kernel)⟩

end StrategyForm
