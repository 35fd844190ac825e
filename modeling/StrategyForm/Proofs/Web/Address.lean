import StrategyForm.Proofs.Web.Slash

/-!
# The addresses of ids

Main statement (`ids_read_back`): below a base address of the web, the address of an id keeps scheme, host and
port, and the id is one segment of its path, from which it can be read byte for byte. So no two ids share an
address, and it does not matter whether the base address ends in a slash.

Left out are ids of which an address does not take all (`IsPlain`). A base path of two slashes is taken for
none, although it has an empty segment before the last one (`root_slashes_dropped`).
-/

namespace StrategyForm.Web
open Url

/-- An id that is neither a dot nor two and has nothing that an address passes over. -/
def IsPlain (id : String) : Prop := id ≠ "." ∧ id ≠ ".." ∧ ∀ c ∈ id.toList, isPassedOver c = false

theorem isPlain_of_all {id : String} (here : id ≠ ".") (above : id ≠ "..")
    (all : id.toList.all (!isPassedOver ·)) : IsPlain id :=
  ⟨here, above, fun c mem => Bool.not_eq_true' _ ▸ List.all_eq_true.1 all c mem⟩

theorem IsPlain.taken {id : String} (h : IsPlain id) : taken id = some id := by
  obtain ⟨here, above, all⟩ := h
  have whole : kept id = id := by
    rw [kept, List.filter_eq_self.2 fun c mem => by simp [all c mem], String.ofList_toList]
  rw [Url.taken, if_neg (not_or.2 ⟨here, above⟩), whole, if_neg here]

/-- A text that is read from escaped characters has their bytes. -/
theorem Percent.bytes_of_decodeText? {cs : List Char} {s : String} (h : decodeText? cs = some s) :
    (decode cs).toByteArray = s.toByteArray := by
  unfold decodeText? String.fromUTF8? at h
  split at h
  · cases h
    rfl
  · cases h

namespace Client

/-- What is asked for an address: this path at the scheme, host and port of the base, and nothing behind. -/
structure Asks (c : Client) (u : Url) (path : List String) : Prop where
  scheme : u.withoutCredentials.scheme = c.base.scheme
  host : u.withoutCredentials.host = c.base.host
  port : u.withoutCredentials.port = c.base.port
  path : u.withoutCredentials.path = .segments path
  query : u.withoutCredentials.query = none
  fragment : u.withoutCredentials.fragment = none

theorem asks_onPath {c : Client} (bare : c.base.IsBare) (path : List String) :
    c.Asks (c.base.onPath path) path := by
  have credentials : ∃ username password,
      c.base.withoutCredentials = { c.base with username, password } := by
    unfold withoutCredentials
    dsimp only
    split
    · exact ⟨_, _, rfl⟩
    · exact ⟨_, _, rfl⟩
  obtain ⟨username, password, sent⟩ := credentials
  have whole := withoutCredentials_onPath c.base path
  rw [sent] at whole
  refine ⟨?_, ?_, ?_, ?_, ?_, ?_⟩ <;> rw [whole]
  · rfl
  · rfl
  · rfl
  · rfl
  · exact bare.1
  · exact bare.2

theorem requested_ne {c : Client} {settings : ApiSettings} (accepted : create settings = .ok c)
    {id id' : String} (plain : IsPlain id) (plain' : IsPlain id') (ne : id ≠ id') :
    requested (c.schemaUrl id) ≠ requested (c.schemaUrl id') ∧
      requested (c.fragmentUrl id) ≠ requested (c.fragmentUrl id') := by
  obtain ⟨base, path⟩ := path_of_create accepted
  have other : landing c.base.isCommon id ≠ landing c.base.isCommon id' := by
    rw [Ne, landing_inj, plain.taken, plain'.taken]
    exact fun same => ne (Option.some.inj same)
  constructor
  · rw [schemaUrl_eq path, schemaUrl_eq path, Ne, requested_inj c.base (by decide) (by decide)]
    exact other
  · rw [fragmentUrl_eq path, fragmentUrl_eq path, Ne, requested_inj c.base (by decide) (by decide)]
    exact other

/-- The address of an id below a base address of the web. The path of the base loses one trailing empty
segment, and is none if it has two empty segments. What is asked for an id stands at the base's scheme, host
and port, with nothing behind the path, where the id is one segment between the words of its endpoint; the
bytes of that segment are those of the id. A slash behind the base address makes no difference. -/
theorem ids_read_back {settings : ApiSettings} {c : Client} (accepted : create settings = .ok c)
    (web : c.base.IsWeb) (bare : c.base.IsBare) :
    ∃ base, c.base.path = .segments base ∧
      let front :=
        if base = ["", ""] then [] else if base.getLast? = some "" then base.dropLast else base
      (∀ id, IsPlain id → ∃ s,
        c.Asks (c.schemaUrl id) (front ++ ["strategies", s, "schema"]) ∧
        c.Asks (c.fragmentUrl id) (front ++ ["schema", "fragments", s, "detail"]) ∧
        (∀ ch ∈ s.toList, ch ≠ '/' ∧ ch ≠ '?' ∧ ch ≠ '#') ∧
        (Percent.decode s.toList).toByteArray = id.toByteArray) ∧
      (∀ id id', IsPlain id → IsPlain id' → id ≠ id' →
        requested (c.schemaUrl id) ≠ requested (c.schemaUrl id') ∧
        requested (c.fragmentUrl id) ≠ requested (c.fragmentUrl id')) ∧
      (∀ net id log location,
        (.requested location ∈ (c.fetchSchema net id log).1 →
          .requested location ∈ log ∨ location = requested (c.schemaUrl id)) ∧
        (.requested location ∈ (c.fetchFragment net id log).1 →
          .requested location ∈ log ∨ location = requested (c.fragmentUrl id))) ∧
      ∀ text, EndsPlain text → settings.baseUrl = text ∨ settings.baseUrl = text ++ "/" →
        ∀ other, other = text ∨ other = text ++ "/" →
          ∃ c', create { settings with baseUrl := other } = .ok c' ∧ SameEndpoints c c' := by
  obtain ⟨base, path⟩ := path_of_create accepted
  refine ⟨base, path, fun id plain => ?_, fun id id' plain plain' => requested_ne accepted plain plain',
    fun net id log location => ⟨requested_of_mem_ask, requested_of_mem_ask⟩,
    fun text ends given other either => create_slash ends accepted web bare given either⟩
  have led : landing c.base.isCommon id = .at (segmentOf c.base.isCommon id) :=
    landing_of_some plain.taken plain.2.1
  have read : Percent.decodeText? (segmentOf c.base.isCommon id).toList = some id := by
    rw [decodeText?_segmentOf, kept_of_taken plain.taken]
  rw [← stem_eq]
  refine ⟨segmentOf c.base.isCommon id, ?_, ?_, fun ch => ne_of_mem_segmentOf,
    Percent.bytes_of_decodeText? read⟩
  · rw [schemaUrl_eq path, led]
    exact asks_onPath bare _
  · rw [fragmentUrl_eq path, led, behind, List.append_assoc]
    exact asks_onPath bare _

/-- An id with slashes, marks, a space and a character beyond ASCII, which is asked for with and without a slash
behind the base address. -/
theorem ids_read_back_of_marked :
    let settings : ApiSettings := { baseUrl := "http://api.test:8080/api/v1" }
    let c : Client := ⟨settings,
      { scheme := "http", host := some (.domain "api.test"), port := some 8080,
        path := .segments ["api", "v1"] }⟩
    let id := "a/b\\?#% é"
    create settings = .ok c ∧ IsPlain id ∧ EndsPlain settings.baseUrl ∧
      (∃ s, c.Asks (c.schemaUrl id) ["api", "v1", "strategies", s, "schema"] ∧
        (Percent.decode s.toList).toByteArray = id.toByteArray) ∧
      requested (c.schemaUrl id) ≠ requested (c.schemaUrl "a/b") ∧
      ∃ c', create { settings with baseUrl := "http://api.test:8080/api/v1/" } = .ok c' ∧
        SameEndpoints c c' := by
  intro settings c id
  have accepted : create settings = .ok c := create_of_toOption (by decide +kernel)
  have plain : IsPlain id := isPlain_of_all (by decide) (by decide) (by decide +kernel)
  have ends : EndsPlain settings.baseUrl :=
    ⟨"http://api.test:8080/api/v".toList, '1', by decide +kernel, by decide, by decide, by decide⟩
  obtain ⟨base, path, placed, distinct, -, slashed⟩ := ids_read_back accepted (.inl rfl) ⟨rfl, rfl⟩
  obtain rfl : ["api", "v1"] = base := UrlPath.segments.inj path
  obtain ⟨s, schema, -, -, bytes⟩ := placed id plain
  have other := distinct id "a/b" plain (isPlain_of_all (by decide) (by decide) (by decide +kernel)) (by decide)
  exact ⟨accepted, plain, ends, ⟨s, schema, bytes⟩, other.1,
    slashed _ ends (.inl rfl) _ (.inr (by decide +kernel))⟩

/-- Of a base path of two slashes the segment before the trailing one is not kept. -/
theorem root_slashes_dropped :
    ¬ ∀ (settings : ApiSettings) (c : Client) (base : List String), create settings = .ok c →
      c.base.IsWeb → c.base.IsBare → c.base.path = .segments base → ∀ id, IsPlain id →
        ∃ s, (c.schemaUrl id).path = .segments
          ((if base.getLast? = some "" then base.dropLast else base) ++ ["strategies", s, "schema"]) := by
  intro kept
  let settings : ApiSettings := { baseUrl := "http://api.test//" }
  let c : Client := ⟨settings,
    { scheme := "http", host := some (.domain "api.test"), path := .segments ["", ""] }⟩
  have accepted : create settings = .ok c := create_of_toOption (by decide +kernel)
  have plain : IsPlain "ab" := isPlain_of_all (by decide) (by decide) (by decide +kernel)
  obtain ⟨s, path⟩ := kept settings c ["", ""] accepted (.inl rfl) ⟨rfl, rfl⟩ rfl "ab" plain
  have dropped : (c.schemaUrl "ab").path = .segments ["strategies", "ab", "schema"] := by decide +kernel
  rw [dropped] at path
  have lengths := congrArg List.length (UrlPath.segments.inj path)
  cases lengths

end Client
end StrategyForm.Web
