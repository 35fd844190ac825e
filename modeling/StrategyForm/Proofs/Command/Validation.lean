import StrategyForm.Proofs.Command.Preparation
import StrategyForm.Proofs.Form.InitialValues
import StrategyForm.Proofs.Json.Restored

/-!
# What a validation checks and how it ends

Three layers of values are laid over each other: the defaults of the fields, of which the last one for a
name counts, those of the schema, and what was entered. What comes of them is said by look-ups
(`get?_mergedValues`). Values that are no JSON object end the command before anything is asked for.
-/

namespace StrategyForm

namespace Command
open Web (Client Resolver)
open Decimal (Binary64 Layout)
open Json.Decoder (decode json bind_ok)

section
variable {r : Resolver} {folder : Folder} {now : Nat} {format : Format} {id file : String}

theorem readValues_of_text {text : String} (h : folder.read file = .ok text) :
    readValues folder file = valuesOf text := by
  rw [readValues, h]

theorem readValues_of_object {text : String} {members : List (String × Json)}
    (h : folder.read file = .ok text) (object : decode json text = .ok (.object members)) :
    readValues folder file = .ok (.ofList members) := by
  rw [readValues_of_text h, valuesOf, object]

theorem run_validate_of_unread {e : Failure} (h : readValues folder file = .error e) :
    run r folder now format (.validate id file) = (r, .error e) := by
  rw [run, h]

theorem run_validate_of_unresolved {entered : FormValues} {e : Fault}
    (h : readValues folder file = .ok entered) (unresolved : (r.resolve now id).2 = .error e) :
    run r folder now format (.validate id file) =
      ((r.resolve now id).1, .error ⟨some ("Failed to resolve schema: " ++ id), .fault e⟩) := by
  rw [run, h]
  dsimp only
  rw [unresolved]
  rfl

theorem run_validate_of_resolved {entered : FormValues} {found : Resolution}
    (h : readValues folder file = .ok entered) (resolved : (r.resolve now id).2 = .ok found) :
    run r folder now format (.validate id file) = ((r.resolve now id).1,
      .ok (violationReport format (violations found.sections (mergedValues found entered)))) := by
  rw [run, h]
  dsimp only
  rw [resolved]
  rfl

end

/-! ### The whole command -/

end Command

end StrategyForm
