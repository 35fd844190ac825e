import StrategyForm.Proofs.Web.Retry
import StrategyForm.Proofs.Web.Segments

/-!
# Endpoints of ids

Main statement (`endpoints_by_taken`): the addresses at which a client asks for an id, by what an address
takes of the id (`taken`). Where this is more than a place, the id is one segment at its endpoint; a dot
or two are skipped, and two dots with a tab or a line break among them lead above the endpoint's words
(`segment_missing_and_address_shared`).

The path of an endpoint is computed once for all places an id can lead to (`behind`, `append_eq`), from
words that are written as they are. The text of a request contains the path between two parts that do
not depend on it (`requested_toList`), so it tells the places apart by their lengths and the segment
(`text_behind_inj`, `requested_inj`).
-/

namespace StrategyForm.Web
namespace Url

/-! ### The path of an endpoint -/

/-- The address with other segments. -/
def onPath (u : Url) (list : List String) : Url := { u with path := .segments list }

/-- A word of an endpoint is written as it is. -/
def IsWord (common : Bool) (w : String) : Prop := landing common w = .at w ∧ w ≠ ""

instance (common : Bool) (w : String) : Decidable (IsWord common w) :=
  inferInstanceAs (Decidable (landing common w = .at w ∧ w ≠ ""))

/-- What an endpoint is put behind. -/
def stem (base : List String) : List String := ground (dropTrailing base)

/-- The path of an endpoint whose id stands between two words, by where the id leads. -/
def behind (front : List String) (word last : String) : Landing → List String
  | .skipped => front ++ [word, last]
  | .above => if front = [] then [last] else front ++ ["", last]
  | .at segment => front ++ [word, segment, last]

theorem ground_append {w : String} (h : w ≠ "") (list : List String) :
    ground (list ++ [w]) = list ++ [w] := by
  unfold ground
  rw [if_neg]
  intro e
  cases list with
  | nil => exact h (by simpa using e)
  | cons a list => simp at e

theorem ground_append_empty (list : List String) :
    ground (list ++ [""]) = if list = [] then [] else list ++ [""] := by
  cases list with
  | nil => rfl
  | cons a list => simp [ground]

theorem ground_append_two (list : List String) (a b : String) :
    ground (list ++ [a, b]) = list ++ [a, b] := by
  unfold ground
  rw [if_neg]
  intro e
  have length := congrArg List.length e
  simp at length

section
variable {common : Bool} {words : List String} {word last : String}

theorem appendSegment_word (h : IsWord common word) (list : List String) :
    appendSegment common list word = ground list ++ [word] := by
  rw [appendSegment_eq, h.1]

theorem ground_foldl (h : ∀ w ∈ words, IsWord common w) (list : List String) :
    ground (words.foldl (appendSegment common) list) = ground list ++ words := by
  induction words generalizing list with
  | nil => simp
  | cons w words ih =>
    have first := h w List.mem_cons_self
    have rest := ih (fun v hv => h v (List.mem_cons_of_mem _ hv)) (ground list ++ [w])
    rw [List.foldl_cons, appendSegment_word first, rest, ground_append first.2, List.append_assoc]
    rfl

theorem foldl_endpoint (h : ∀ w ∈ words, IsWord common w) (hword : IsWord common word)
    (hlast : IsWord common last) (list : List String) (id : String) :
    (words ++ [word, id, last]).foldl (appendSegment common) list =
      behind (ground list ++ words) word last (landing common id) := by
  have front : ground (words.foldl (appendSegment common) list) = ground list ++ words :=
    ground_foldl h list
  rw [List.foldl_append, List.foldl_cons, List.foldl_cons, List.foldl_cons, List.foldl_nil,
    appendSegment_word hlast, appendSegment_word hword, front, appendSegment_eq,
    ground_append hword.2]
  -- The word is there already. What the id does to it is settled by where the id leads.
  generalize ground list ++ words = front
  cases landing common id with
  | skipped =>
    simp only [behind, ground_append hword.2, List.append_assoc, List.cons_append, List.nil_append]
  | above =>
    simp only [behind, List.dropLast_concat, ground_append_empty]
    split
    · rfl
    · simp
  | «at» segment =>
    have two := ground_append_two front word segment
    simp only [behind, List.append_assoc, List.cons_append, List.nil_append, two]

theorem append_eq (u : Url) {base : List String} (path : u.path = .segments base)
    (h : ∀ w ∈ words, IsWord u.isCommon w) (hword : IsWord u.isCommon word)
    (hlast : IsWord u.isCommon last) (id : String) :
    u.append (words ++ [word, id, last]) =
      u.onPath (behind (stem base ++ words) word last (landing u.isCommon id)) := by
  unfold append
  rw [path]
  simp only [foldl_endpoint h hword hlast, stem, onPath]

end

/-! ### The text of a request -/

/-- The address of the request for an address. -/
def requested (u : Url) : String := u.withoutCredentials.location

/-- The text of a path. -/
def text (list : List String) : List Char := list.flatMap fun s => '/' :: s.toList

theorem length_text_append (a b : List String) :
    (text (a ++ b)).length = (text a).length + (text b).length := by
  rw [text, List.flatMap_append, List.length_append]
  rfl

theorem length_text_cons (a : String) (list : List String) :
    (text (a :: list)).length = a.toList.length + 1 + (text list).length := by
  rw [text, List.flatMap_cons, List.length_append, List.length_cons]
  rfl

/-- The dot that stands before a path that begins with two slashes, where there is no host. -/
def dotted (host : Option Host) (list : List String) : List Char :=
  if host.isNone && list.length > 1 && list.head? = some "" then ['/', '.'] else []

theorem pathText_toList (u : Url) (list : List String) :
    (u.onPath list).pathText.toList = dotted u.host list ++ text list := by
  have joined : (String.join (list.map ("/" ++ ·))).toList = text list := by
    rw [String.toList_join, List.flatMap_map]
    simp [text]
  have written : (u.onPath list).pathText =
      if u.host.isNone && list.length > 1 && list.head? = some "" then
        "/." ++ String.join (list.map ("/" ++ ·))
      else String.join (list.map ("/" ++ ·)) := rfl
  rw [written, dotted]
  split
  · rw [String.toList_append, joined]
    rfl
  · rw [joined, List.nil_append]

theorem location_onPath (u : Url) (list : List String) : (u.onPath list).location =
    u.scheme ++ ":" ++ u.authority ++ (u.onPath list).pathText ++ u.query.elim "" ("?" ++ ·) ++ "" :=
  rfl

theorem withoutCredentials_onPath (u : Url) (list : List String) :
    (u.onPath list).withoutCredentials = u.withoutCredentials.onPath list := by
  show withoutCredentials { u with path := .segments list } =
    { u.withoutCredentials with path := .segments list }
  simp only [withoutCredentials]
  split <;> rfl

theorem host_withoutCredentials (u : Url) : u.withoutCredentials.host = u.host := by
  unfold withoutCredentials
  dsimp only
  split <;> rfl

/-- The path is the only part of a request that depends on it. -/
theorem requested_toList (u : Url) : ∃ front back : List Char, ∀ list,
    (requested (u.onPath list)).toList = front ++ (dotted u.host list ++ text list) ++ back := by
  let sent := u.withoutCredentials
  refine ⟨(sent.scheme ++ ":" ++ sent.authority).toList, (sent.query.elim "" ("?" ++ ·)).toList,
    fun list => ?_⟩
  rw [requested, withoutCredentials_onPath, location_onPath, String.append_empty,
    String.toList_append, String.toList_append, pathText_toList, host_withoutCredentials]

section
variable {front : List String} {word last : String}

/-- The dot is there or not whatever the id is. -/
theorem dotted_behind (host : Option Host) (hword : word ≠ "") (hlast : last ≠ "") (l : Landing) :
    dotted host (behind front word last l) =
      if host.isNone && front.head? = some "" then ['/', '.'] else [] := by
  unfold dotted
  cases front with
  | nil => cases l <;> simp [behind, hword, hlast]
  | cons a front =>
    cases l with
    | skipped => simp [behind]
    | «at» segment => simp [behind]
    | above => simp [behind]

/-- An id that leads above gives a shorter text than one that is skipped. -/
theorem length_text_above (hword : word ≠ "") :
    (text (behind front word last .above)).length <
      (text (behind front word last .skipped)).length := by
  have some : 0 < word.toList.length :=
    List.length_pos_iff.2 fun e => hword (String.toList_eq_nil_iff.1 e)
  have skipped : (text (front ++ [word, last])).length =
      (text front).length + (word.toList.length + 1 + (text [last]).length) := by
    rw [length_text_append, length_text_cons]
  simp only [behind]
  split
  · omega
  · have above : (text (front ++ ["", last])).length =
        (text front).length + (0 + 1 + (text [last]).length) := by
      rw [length_text_append, length_text_cons]
      rfl
    omega

theorem text_behind_inj (hword : word ≠ "") {l l' : Landing}
    (h : text (behind front word last l) = text (behind front word last l')) : l = l' := by
  have above : (text (behind front word last .above)).length <
      (text (behind front word last .skipped)).length := length_text_above hword
  have at_length (s : String) : (text (behind front word last (.at s))).length =
      (text (behind front word last .skipped)).length + 1 + s.toList.length := by
    simp only [behind, length_text_append, length_text_cons]
    omega
  have lengths := congrArg List.length h
  -- A skipped id gives a longer text than one that leads above, and a shorter one than any segment.
  cases l with
  | skipped =>
    cases l' with
    | skipped => rfl
    | above => omega
    | «at» s' => rw [at_length] at lengths; omega
  | above =>
    cases l' with
    | skipped => omega
    | above => rfl
    | «at» s' => rw [at_length] at lengths; omega
  | «at» s =>
    cases l' with
    | skipped => rw [at_length] at lengths; omega
    | above => rw [at_length] at lengths; omega
    | «at» s' =>
      have same : s.toList = s'.toList := by simpa [text, behind] using h
      rw [String.toList_inj.1 same]

theorem requested_inj (u : Url) (hword : word ≠ "") (hlast : last ≠ "") {l l' : Landing} :
    requested (u.onPath (behind front word last l)) =
      requested (u.onPath (behind front word last l')) ↔ l = l' := by
  refine ⟨fun h => ?_, fun h => by rw [h]⟩
  obtain ⟨before, after, spelled⟩ := requested_toList u
  have texts := congrArg String.toList h
  rw [spelled, spelled, dotted_behind u.host hword hlast, dotted_behind u.host hword hlast] at texts
  exact text_behind_inj hword
    (List.append_cancel_left (List.append_cancel_left (List.append_cancel_right texts)))

end

end Url

namespace Client
open Url

/-! ### The client's addresses -/

theorem path_of_create {settings : ApiSettings} {c : Client}
    (accepted : create settings = .ok c) : ∃ base, c.base.path = .segments base := by
  simp only [create] at accepted
  split at accepted
  · cases accepted
  · split at accepted
    · cases accepted
    · split at accepted
      · rename_i base _ segments path
        cases accepted
        exact ⟨segments, path⟩
      · cases accepted

/-- The base path loses one trailing slash; of a path of two slashes nothing is left. -/
theorem stem_eq (base : List String) : stem base =
    if base = ["", ""] then [] else if base.getLast? = some "" then base.dropLast else base := by
  unfold stem ground dropTrailing
  match base with
  | [] => rfl
  | [a] => by_cases h : a = "" <;> simp [h]
  | [a, b] => by_cases h : b = "" <;> simp [h]
  | a :: b :: c :: rest =>
    by_cases h : (c :: rest).getLast? = some ""
    · simp_all
    · simp_all

section
variable {c : Client} {base : List String}

theorem isWord_all (common : Bool) :
    ∀ w ∈ ["strategies", "schema", "fragments", "detail"], IsWord common w := by
  cases common <;> decide +kernel

theorem schemaUrl_eq (path : c.base.path = .segments base) (id : String) : c.schemaUrl id =
    c.base.onPath (behind (stem base) "strategies" "schema" (landing c.base.isCommon id)) := by
  have word := isWord_all c.base.isCommon
  have none : ∀ w ∈ ([] : List String), IsWord c.base.isCommon w := by simp
  have appended : c.base.append ["strategies", id, "schema"] = _ :=
    append_eq c.base path none (word "strategies" (by simp)) (word "schema" (by simp)) id
  rwa [List.append_nil] at appended

theorem fragmentUrl_eq (path : c.base.path = .segments base) (id : String) :
    c.fragmentUrl id = c.base.onPath
      (behind (stem base ++ ["schema"]) "fragments" "detail" (landing c.base.isCommon id)) := by
  have word := isWord_all c.base.isCommon
  have first : ∀ w ∈ ["schema"], IsWord c.base.isCommon w := by simpa using word "schema" (by simp)
  exact append_eq c.base path first (word "fragments" (by simp)) (word "detail" (by simp)) id

end

/-- What tries do that are no pauses, some try does. -/
theorem of_mem_askFrom {α : Type} {once : List Traffic → List Traffic × Except Fault α}
    {pauseMs : Nat → Nat} {x : Traffic} {P : Prop} (unpaused : ∀ ms, x ≠ .paused ms)
    (tried : ∀ log, x ∈ (once log).1 → x ∈ log ∨ P) (left done : Nat) (log : List Traffic)
    (mem : x ∈ (askFrom once pauseMs left done log).1) : x ∈ log ∨ P := by
  induction left generalizing done log with
  | zero => exact tried log mem
  | succ left ih =>
    by_cases retried : Retried (once log).2
    · rw [askFrom_of_retried retried] at mem
      rcases ih _ _ mem with mem | done
      · rcases List.mem_append.1 mem with mem | mem
        · exact tried log mem
        · exact absurd (List.mem_singleton.1 mem) (unpaused _)
      · exact .inr done
    · rw [askFrom_of_final (.inr retried)] at mem
      exact tried log mem

/-- A try requests its address; wherever else the client is sent, it follows. -/
theorem requested_of_mem_ask {α : Type} {c : Client} {net : Network} {d : Json.Decoder α} {u : Url}
    {log : List Traffic} {location : String} (mem : .requested location ∈ (c.ask net d u log).1) :
    .requested location ∈ log ∨ location = requested u := by
  refine of_mem_askFrom (by simp) (fun log mem => ?_) _ _ log mem
  cases sendable : isSendable u.withoutCredentials with
  | true =>
    rw [askOnce_of_sendable sendable] at mem
    refine (List.mem_append.1 mem).imp_right fun mem => ?_
    obtain ⟨further, spelled, -, followed⟩ :=
      (travel_trip net .requested maxHops u.withoutCredentials log).spelled
    rw [spelled] at mem
    rcases List.mem_cons.1 mem with same | mem
    · exact Traffic.requested.inj same
    · obtain ⟨_, e⟩ := followed _ mem
      cases e
  | false =>
    rw [askOnce_of_unsendable sendable] at mem
    exact .inl mem

/-- Where an id leads, at both endpoints. -/
def Leads (c : Client) (id : String) (schema fragment : List String) : Prop :=
  (c.schemaUrl id).path = .segments schema ∧ (c.fragmentUrl id).path = .segments fragment

/-- The endpoints of an id, by what an address takes of it. For most ids, both lie behind the base path,
which loses one trailing slash: the id is one segment there, between the words of the endpoint, and can
be read from it but for what is passed over. The segment of an id that is a dot or two is missing; an id
of two dots and something that is passed over takes the word before it along. Two ids have one address
when the same is taken of them, and only then; and no call requests another address, except by following
where a server sends it on. -/
theorem endpoints_by_taken {settings : ApiSettings} {c : Client}
    (accepted : create settings = .ok c) :
    ∃ base, c.base.path = .segments base ∧
      (stem base =
        if base = ["", ""] then [] else if base.getLast? = some "" then base.dropLast else base) ∧
      (∀ id t, taken id = some t → t ≠ ".." → ∃ s,
        c.Leads id (stem base ++ ["strategies", s, "schema"])
          (stem base ++ ["schema", "fragments", s, "detail"]) ∧
        (∀ ch ∈ s.toList, ch ≠ '/' ∧ ch ≠ '?' ∧ ch ≠ '#') ∧
        Percent.decodeText? s.toList = some t) ∧
      (∀ id, taken id = none → c.Leads id (stem base ++ ["strategies", "schema"])
        (stem base ++ ["schema", "fragments", "detail"])) ∧
      (∀ id, taken id = some ".." → c.Leads id
        (if stem base = [] then ["schema"] else stem base ++ ["", "schema"])
        (stem base ++ ["schema", "", "detail"])) ∧
      (∀ id id',
        (requested (c.schemaUrl id) = requested (c.schemaUrl id') ↔ taken id = taken id') ∧
        (requested (c.fragmentUrl id) = requested (c.fragmentUrl id') ↔ taken id = taken id')) ∧
      ∀ net id log location,
        (.requested location ∈ (c.fetchSchema net id log).1 →
          .requested location ∈ log ∨ location = requested (c.schemaUrl id)) ∧
        (.requested location ∈ (c.fetchFragment net id log).1 →
          .requested location ∈ log ∨ location = requested (c.fragmentUrl id)) := by
  obtain ⟨base, path⟩ := path_of_create accepted
  have schema := schemaUrl_eq path
  have fragment := fragmentUrl_eq path
  refine ⟨base, path, stem_eq base, fun id t took below => ?_, fun id took => ?_, fun id took => ?_,
    fun id id' => ⟨?_, ?_⟩, fun net id log location => ⟨requested_of_mem_ask, requested_of_mem_ask⟩⟩
  · have led : landing c.base.isCommon id = .at (segmentOf c.base.isCommon t) :=
      landing_of_some took below
    refine ⟨segmentOf c.base.isCommon t, ⟨?_, ?_⟩, fun ch => ne_of_mem_segmentOf, ?_⟩
    · rw [schema, led]
      rfl
    · rw [fragment, led, behind, List.append_assoc]
      rfl
    · rw [decodeText?_segmentOf, kept_of_taken took]
  · have led : landing c.base.isCommon id = .skipped := landing_of_none took
    refine ⟨?_, ?_⟩
    · rw [schema, led]
      rfl
    · rw [fragment, led, behind, List.append_assoc]
      rfl
  · have led : landing c.base.isCommon id = .above := landing_of_above took
    refine ⟨?_, ?_⟩
    · rw [schema, led]
      rfl
    · rw [fragment, led, behind, if_neg (by simp), List.append_assoc]
      rfl
  · rw [schema, schema, requested_inj c.base (by decide) (by decide), landing_inj]
  · rw [fragment, fragment, requested_inj c.base (by decide) (by decide), landing_inj]

theorem create_of_toOption {settings : ApiSettings} {c : Client}
    (h : (create settings).toOption = some c) : create settings = .ok c := by
  cases made : create settings with
  | ok c' => rw [made] at h; exact congrArg Except.ok (Option.some.inj h)
  | error e => rw [made] at h; cases h

/-- An id with a slash and a tab, which is asked for without the tab. -/
theorem endpoints_by_taken_of_tabbed :
    let settings : ApiSettings := { baseUrl := "http://api.test/api/v1/" }
    let c : Client := ⟨settings,
      { scheme := "http", host := some (.domain "api.test"), path := .segments ["api", "v1", ""] }⟩
    create settings = .ok c ∧ taken "a/\tb" = some "a/b" ∧ ∃ s,
      (c.schemaUrl "a/\tb").path = .segments ["api", "v1", "strategies", s, "schema"] ∧
      (c.fragmentUrl "a/\tb").path = .segments ["api", "v1", "schema", "fragments", s, "detail"] ∧
      Percent.decodeText? s.toList = some "a/b" ∧
      requested (c.schemaUrl "a/\tb") = requested (c.schemaUrl "a/b") := by
  intro settings c
  have accepted : create settings = .ok c := create_of_toOption (by decide +kernel)
  have took : taken "a/\tb" = some "a/b" := by decide +kernel
  obtain ⟨base, path, -, at_taken, -, -, same, -⟩ := endpoints_by_taken accepted
  obtain rfl : ["api", "v1", ""] = base := UrlPath.segments.inj path
  obtain ⟨s, ⟨schema, fragment⟩, -, read⟩ := at_taken _ _ took (by decide)
  have one := (same "a/\tb" "a/b").1.2 (by decide +kernel)
  exact ⟨accepted, took, s, schema, fragment, read, one⟩

/-- The segment of an id can be missing, and two ids can have one address. -/
theorem segment_missing_and_address_shared :
    (¬ ∀ (settings : ApiSettings) (c : Client) (base : List String), create settings = .ok c →
      c.base.path = .segments base →
      ∀ id, ∃ s, (c.schemaUrl id).path = .segments (stem base ++ ["strategies", s, "schema"])) ∧
    ¬ ∀ (settings : ApiSettings) (c : Client), create settings = .ok c →
      ∀ id id', id ≠ id' → requested (c.schemaUrl id) ≠ requested (c.schemaUrl id') := by
  let settings : ApiSettings := { baseUrl := "http://api.test/api/v1" }
  let c : Client := ⟨settings,
    { scheme := "http", host := some (.domain "api.test"), path := .segments ["api", "v1"] }⟩
  have accepted : create settings = .ok c := create_of_toOption (by decide +kernel)
  refine ⟨fun confined => ?_, fun distinct => ?_⟩
  · obtain ⟨s, path⟩ := confined settings c ["api", "v1"] accepted rfl "."
    have missing : (c.schemaUrl ".").path = .segments ["api", "v1", "strategies", "schema"] := by
      decide +kernel
    rw [missing] at path
    have lengths := congrArg List.length (UrlPath.segments.inj path)
    have stem : stem ["api", "v1"] = ["api", "v1"] := by decide
    rw [stem] at lengths
    cases lengths
  · have shared : requested (c.schemaUrl "a\tb") = requested (c.schemaUrl "ab") := by decide +kernel
    exact distinct settings c accepted "a\tb" "ab" (by decide) shared

end Client
end StrategyForm.Web
