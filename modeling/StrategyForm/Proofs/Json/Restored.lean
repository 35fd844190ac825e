import StrategyForm.Json.Decoder
import StrategyForm.Proofs.Json.Written
import StrategyForm.Proofs.Keyed

/-!
# Values that were decoded are decoded again

For each decoder: from the document of what is written for a value, the value is decoded. Texts,
truth values and integers are, whatever they are; a value that is kept as it is (`json`) and a map of such
values are if they were decoded within as many levels (`Restores`), since an object that was decoded has
its members sorted, each key once. A map is gathered from its members, which may be written in any order.
-/

namespace StrategyForm.Json

theorem Reader.number_fst (cs : List Char) :
    (∃ l, (Reader.number cs).1 = .number l) ∨ ∃ f, (Reader.number cs).1 = .brokenNumber f := by
  unfold Reader.number
  dsimp only
  split
  · exact .inl ⟨_, rfl⟩
  · exact .inr ⟨_, rfl⟩

theorem doc_ne_null {j : Json} (h : j ≠ .null) : j.doc ≠ .null := by
  intro e
  cases j with
  | null => exact h rfl
  | number n =>
    rw [doc] at e
    rcases Reader.number_fst n.render.toList with ⟨l, e'⟩ | ⟨f, e'⟩ <;> rw [e'] at e <;> cases e
  | bool | string | array | object => rw [doc] at e; cases e

theorem doc_ne_brokenWord (j : Json) (asNull : Bool) (f : Flaw) : j.doc ≠ .brokenWord asNull f := by
  intro e
  cases j with
  | number n =>
    rw [doc] at e
    rcases Reader.number_fst n.render.toList with ⟨l, e'⟩ | ⟨f, e'⟩ <;> rw [e'] at e <;> cases e
  | null | bool | string | array | object => rw [doc] at e; cases e

theorem AllReadBack.of_mem_items {items : List Json} (h : AllReadBack (floatsOfItems items)) {j : Json}
    (mem : j ∈ items) : AllReadBack j.floats := by
  induction items with
  | nil => cases mem
  | cons item rest ih =>
    obtain ⟨first, others⟩ := AllReadBack.append.1 h
    rcases List.mem_cons.1 mem with rfl | mem
    · exact first
    · exact ih others mem

theorem AllReadBack.of_mem_members {members : List (String × Json)}
    (h : AllReadBack (floatsOfMembers members)) {e : String × Json} (mem : e ∈ members) :
    AllReadBack e.2.floats := by
  induction members with
  | nil => cases mem
  | cons member rest ih =>
    obtain ⟨first, others⟩ := AllReadBack.append.1 h
    rcases List.mem_cons.1 mem with rfl | mem
    · exact first
    · exact ih others mem

namespace Decoder
variable {α β ε : Type}

/-- A step that went well, and what came after it. -/
theorem bind_ok {x : Except ε α} {f : α → Except ε β} {b : β} (h : x >>= f = .ok b) :
    ∃ a, x = .ok a ∧ f a = .ok b := by
  cases x with
  | error e => cases h
  | ok a => exact ⟨a, rfl, h⟩

theorem map_ok {x : Except ε α} {f : α → β} {b : β} (h : x.map f = .ok b) : ∃ a, x = .ok a ∧ f a = b := by
  cases x with
  | error e => cases h
  | ok a => exact ⟨a, rfl, by cases h; rfl⟩

/-- What is gathered from a list comes from its elements. -/
theorem mapM_ok {f : α → Except ε β} {as : List α} {bs : List β} (h : as.mapM f = .ok bs) {b : β}
    (mem : b ∈ bs) : ∃ a ∈ as, f a = .ok b := by
  induction as generalizing bs with
  | nil =>
    cases h
    cases mem
  | cons a rest ih =>
    rw [List.mapM_cons] at h
    obtain ⟨first, found, h⟩ := bind_ok h
    obtain ⟨others, found', h⟩ := bind_ok h
    cases h
    rcases List.mem_cons.1 mem with rfl | mem
    · exact ⟨a, List.mem_cons_self, found⟩
    · obtain ⟨x, here, found⟩ := ih found' mem
      exact ⟨x, List.mem_cons_of_mem a here, found⟩

/-- Within at least `n` levels, a value that was decoded is decoded from what is written for it. -/
def Restores (n : Nat) (d : Decoder α) (write : α → Json) : Prop :=
  ∀ levels, n ≤ levels → ∀ doc a, d levels doc = .ok a → AllReadBack (write a).floats →
    d levels (write a).doc = .ok a

section
variable {n levels : Nat} {d : Decoder α} {write : α → Json}

/-! ### Texts and numbers -/

theorem text_doc (s : String) : text levels (Json.string s).doc = .ok s := rfl

theorem bool_doc (b : Bool) : bool levels (Json.bool b).doc = .ok b := rfl

theorem number_doc {x : Number} (reads : AllReadBack (Json.number x).floats) :
    number levels (Json.number x).doc = .ok x := by
  obtain ⟨l, read, value⟩ := exists_literal reads
  simp only [doc, read, number, value]

theorem float_doc {x : Decimal.Binary64} (reads : AllReadBack (ofFloat x).floats) :
    float levels (ofFloat x).doc = .ok x := by
  have read : number levels (Json.number (.float x)).doc = .ok (.float x) := number_doc reads
  rw [float, map, ofFloat, read]
  rfl

theorem integer_doc {narrow : Int → Option α} {i : Int} {a : α} (inWords : InWords i)
    (narrowed : narrow i = some a) : integer narrow levels (ofInt i).doc = .ok a := by
  have whole : ofInt i = .number (.int i inWords) := by rw [ofInt, Number.ofInt, dif_pos inWords]
  have read : number levels (Json.number (.int i inWords)).doc = .ok (.int i inWords) :=
    number_doc (by simp [floats, AllReadBack])
  rw [whole, integer, read]
  simp only [bind, Except.bind, narrowed]

theorem int64_doc (o : Int64) : int64 levels (ofInt o.toInt).doc = .ok o := by
  have above := o.le_toInt
  have below := o.toInt_lt
  refine integer_doc (by unfold InWords; omega) ?_
  rw [if_pos (by omega), Int64.ofInt_toInt]

theorem uint64_doc (u : UInt64) : uint64 levels (ofInt u.toNat).doc = .ok u := by
  have below := u.toNat_lt
  refine integer_doc (by unfold InWords; omega) ?_
  rw [if_pos (by omega), Int.toNat_natCast, UInt64.ofNat_toNat]

theorem uint32_doc (u : UInt32) : uint32 levels (ofInt u.toNat).doc = .ok u := by
  have below := u.toNat_lt
  refine integer_doc (by unfold InWords; omega) ?_
  rw [if_pos (by omega), Int.toNat_natCast, UInt32.ofNat_toNat]

theorem oneOf_doc {choose : String → Option α} {word : α → String} {a : α}
    (h : choose (word a) = some a) : oneOf choose levels (Json.string (word a)).doc = .ok a := by
  simp only [doc, oneOf, oneOf.pick, h]

/-! ### Values within values -/

theorem optional_doc {j : Json} {a : α} (nonnull : j ≠ .null) (h : d levels j.doc = .ok a) :
    optional d levels j.doc = .ok (some a) := by
  have other := doc_ne_null nonnull
  have ended := doc_ne_brokenWord j true
  unfold optional
  split
  · rename_i e
    exact absurd e other
  · rename_i f e
    exact absurd e (ended f)
  · rw [h]
    rfl

theorem optional_some {doc : Doc} {a : α} (h : optional d levels doc = .ok (some a)) :
    doc ≠ .null ∧ d levels doc = .ok a := by
  unfold optional at h
  split at h
  · cases h
  · cases h
  · rename_i other _
    obtain ⟨b, found, e⟩ := map_ok h
    cases e
    exact ⟨other, found⟩

/-- A value that was decoded where there might have been none. -/
theorem Restores.of_optional (h : Restores n d write) (enough : n ≤ levels) {doc : Doc} {o : Option α}
    (kept : optional d levels doc = .ok o) (a : α) (given : o = some a)
    (reads : AllReadBack (write a).floats) : d levels (write a).doc = .ok a := by
  subst given
  exact h levels enough doc a (optional_some kept).2 reads

theorem mapM_docs {as : List α} (h : ∀ a ∈ as, d levels (write a).doc = .ok a) :
    (docs (as.map write)).mapM (d levels) = .ok as := by
  induction as with
  | nil => rfl
  | cons a rest ih =>
    have first := h a List.mem_cons_self
    have others := ih fun b mem => h b (List.mem_cons_of_mem a mem)
    rw [List.map_cons, docs, List.mapM_cons, first, others]
    rfl

theorem list_doc {as : List α} (h : ∀ a ∈ as, d levels (write a).doc = .ok a) :
    list d (levels + 1) (Json.array (as.map write)).doc = .ok as := by
  rw [doc, list, mapM_docs h]
  rfl

theorem list_ok {doc : Doc} {as : List α} (h : list d (levels + 1) doc = .ok as) {a : α} (mem : a ∈ as) :
    ∃ doc, d levels doc = .ok a := by
  cases doc with
  | array items ending =>
    obtain ⟨found, all, h⟩ := bind_ok h
    obtain ⟨_, _, h⟩ := bind_ok h
    cases h
    obtain ⟨doc, -, found⟩ := mapM_ok all mem
    exact ⟨doc, found⟩
  | null | bool | number | string | object | flaw | brokenWord | brokenNumber => cases h

theorem list_restores (h : Restores n d write) : Restores (n + 1) (list d) fun as => .array (as.map write) := by
  intro levels enough doc as found reads
  obtain ⟨levels, rfl⟩ : ∃ k, levels = k + 1 := ⟨levels - 1, by omega⟩
  refine list_doc fun a mem => ?_
  obtain ⟨doc, once⟩ := list_ok found mem
  exact h levels (by omega) doc a once (reads.of_mem_items (List.mem_map_of_mem mem))

theorem keyed_doc {d : Decoder Json} {members : List (String × Json)}
    (h : ∀ e ∈ members, d levels e.2.doc = .ok e.2) :
    keyed d (levels + 1) (Json.object members).doc = .ok (.ofList members) := by
  have all (members : List (String × Json)) (h : ∀ e ∈ members, d levels e.2.doc = .ok e.2) :
      (memberDocs members).mapM (fun e => key e.1 >>= fun k => d levels e.2 >>= fun a => pure (k, a)) =
        .ok members := by
    induction members with
    | nil => rfl
    | cons e rest ih =>
      have first := h e List.mem_cons_self
      have others := ih fun b mem => h b (List.mem_cons_of_mem e mem)
      rw [memberDocs, List.mapM_cons, others]
      simp only [key, first]
      rfl
  calc
    keyed d (levels + 1) (Json.object members).doc
      = (Except.ok members >>= fun found => pure (.ofList found)) := by rw [← all members h]; rfl
    _ = .ok (.ofList members) := rfl

theorem keyed_ok {doc : Doc} {m : Keyed α} (h : keyed d (levels + 1) doc = .ok m) {e : String × α}
    (mem : e ∈ m.entries) : ∃ doc, d levels doc = .ok e.2 := by
  cases doc with
  | object members ending =>
    obtain ⟨found, all, h⟩ := bind_ok h
    obtain ⟨_, _, h⟩ := bind_ok h
    cases h
    obtain ⟨member, -, found⟩ := mapM_ok all (Keyed.mem_ofList mem)
    obtain ⟨k, -, found⟩ := bind_ok found
    obtain ⟨a, once, last⟩ := bind_ok found
    cases last
    exact ⟨_, once⟩
  | null | bool | number | string | array | flaw | brokenWord | brokenNumber => cases h

/-! ### Values that are kept -/

theorem jsonItems_docs {items : List Json} (h : ∀ j ∈ items, json levels j.doc = .ok j) :
    jsonItems levels (docs items) = .ok items := by
  induction items with
  | nil => rfl
  | cons item rest ih =>
    have first := h item List.mem_cons_self
    have others := ih fun j mem => h j (List.mem_cons_of_mem item mem)
    rw [docs, jsonItems, first, others]
    rfl

theorem jsonMembers_docs {members : List (String × Json)} (h : ∀ e ∈ members, json levels e.2.doc = .ok e.2) :
    jsonMembers levels (memberDocs members) = .ok members := by
  induction members with
  | nil => rfl
  | cons member rest ih =>
    have first := h member List.mem_cons_self
    have others := ih fun e mem => h e (List.mem_cons_of_mem member mem)
    rw [memberDocs, jsonMembers, first, others]
    rfl

end

/-- Only `null` is decoded as `null`. -/
theorem json_null {levels : Nat} {doc : Doc} (h : json levels doc = .ok .null) : doc = .null := by
  cases doc with
  | null => rfl
  | number l =>
    rw [json] at h
    split at h <;> cases h
  | string s => cases s <;> cases h
  | array items ending | object members ending =>
    cases levels with
    | zero => cases h
    | succ levels =>
      rw [json] at h
      obtain ⟨_, _, h⟩ := bind_ok h
      obtain ⟨_, _, h⟩ := bind_ok h
      cases h
  | bool | flaw | brokenWord | brokenNumber => cases h

theorem optional_json_nonnull {levels : Nat} {doc : Doc} {o : Option Json}
    (kept : optional json levels doc = .ok o) (j : Json) (given : o = some j) : j ≠ .null := by
  subst given
  rintro rfl
  obtain ⟨nonnull, found⟩ := optional_some kept
  exact nonnull (json_null found)

mutual
/-- A value that was decoded within these levels is decoded from its document within them. -/
theorem json_restored : (levels : Nat) → (doc : Doc) → (j : Json) → json levels doc = .ok j →
    AllReadBack j.floats → json levels j.doc = .ok j
  | _, .null, j, found, _ => by
    cases found
    rfl
  | _, .bool _, j, found, _ => by
    cases found
    rfl
  | levels, .number l, j, found, reads => by
    rw [json] at found
    split at found
    · cases found
      obtain ⟨l, read, value⟩ := exists_literal reads
      rw [Json.doc, read, json, value]
    · cases found
  | _, .string (some s), j, found, _ => by
    cases found
    rfl
  | _, .string none, _, found, _ => by cases found
  | 0, .array .., _, found, _ | 0, .object .., _, found, _ => by cases found
  | levels + 1, .array items ending, j, found, reads => by
    rw [json] at found
    obtain ⟨js, all, found⟩ := bind_ok found
    obtain ⟨_, _, found⟩ := bind_ok found
    cases found
    have again := jsonItems_docs fun j mem =>
      jsonItems_restored levels items js all j mem (AllReadBack.of_mem_items reads mem)
    rw [Json.doc, json, again]
    rfl
  | levels + 1, .object members ending, j, found, reads => by
    rw [json] at found
    obtain ⟨entries, all, found⟩ := bind_ok found
    obtain ⟨_, _, found⟩ := bind_ok found
    cases found
    have again := jsonMembers_docs fun e mem =>
      jsonMembers_restored levels members entries all e (Keyed.mem_ofList mem)
        (AllReadBack.of_mem_members reads mem)
    rw [Json.doc, json, again]
    -- the members are sorted already, so gathering them again changes nothing
    simp only [objectEnd, bind, Except.bind, pure, Except.pure, Keyed.ofList_entries]
  | _, .flaw .., _, found, _ | _, .brokenWord .., _, found, _ | _, .brokenNumber _, _, found, _ => by
    cases found

theorem jsonItems_restored : (levels : Nat) → (ds : List Doc) → (js : List Json) →
    jsonItems levels ds = .ok js → ∀ j ∈ js, AllReadBack j.floats → json levels j.doc = .ok j
  | _, [], js, found, j, mem, _ => by
    cases found
    cases mem
  | levels, d :: rest, js, found, j, mem, reads => by
    rw [jsonItems] at found
    obtain ⟨first, here, found⟩ := bind_ok found
    obtain ⟨others, all, found⟩ := bind_ok found
    cases found
    rcases List.mem_cons.1 mem with rfl | mem
    · exact json_restored levels d j here reads
    · exact jsonItems_restored levels rest others all j mem reads

theorem jsonMembers_restored : (levels : Nat) → (ds : List (Option String × Doc)) →
    (entries : List (String × Json)) → jsonMembers levels ds = .ok entries →
    ∀ e ∈ entries, AllReadBack e.2.floats → json levels e.2.doc = .ok e.2
  | _, [], entries, found, e, mem, _ => by
    cases found
    cases mem
  | levels, (k, d) :: rest, entries, found, e, mem, reads => by
    rw [jsonMembers] at found
    obtain ⟨key, -, found⟩ := bind_ok found
    obtain ⟨first, here, found⟩ := bind_ok found
    obtain ⟨others, all, found⟩ := bind_ok found
    cases found
    rcases List.mem_cons.1 mem with rfl | mem
    · exact json_restored levels d first here reads
    · exact jsonMembers_restored levels rest others all e mem reads
end

theorem json_restores : Restores 0 json id := by
  intro levels _ doc j found reads
  exact json_restored levels doc j found reads

/-- A map that was decoded is decoded again, in whatever order its members are written. -/
theorem keyed_restores {order : Keyed Json → List (String × Json)} (perm : ∀ m, (order m).Perm m.entries) :
    Restores 1 (keyed json) fun m => .object (order m) := by
  intro levels enough doc m found reads
  obtain ⟨levels, rfl⟩ : ∃ k, levels = k + 1 := ⟨levels - 1, by omega⟩
  have each : ∀ e ∈ order m, json levels e.2.doc = .ok e.2 := by
    intro e mem
    obtain ⟨doc, once⟩ := keyed_ok found ((perm m).subset mem)
    exact json_restored levels doc e.2 once (reads.of_mem_members mem)
  calc
    keyed json (levels + 1) (Json.object (order m)).doc = .ok (.ofList (order m)) := keyed_doc each
    _ = .ok m := congrArg Except.ok (Keyed.ofList_perm (perm m))

/-! ### Texts -/

/-- A value that was decoded from a text is decoded from both texts that are written for it, if the
floats in it are read back as they are written, and the same is written for what is decoded then. -/
def Undoes (d : Decoder α) (write : α → Json) : Prop :=
  ∀ text v, decode d text = .ok v → AllReadBack (write v).floats →
    ∀ written ∈ [(write v).compress, (write v).pretty],
      decode d written = .ok v ∧ (decode d written).map write = .ok (write v)

theorem Undoes.of_doc {d : Decoder α} {write : α → Json}
    (h : ∀ doc v, d levels doc = .ok v → AllReadBack (write v).floats → d levels (write v).doc = .ok v) :
    Undoes d write := by
  intro text v found reads written mem
  have once : d levels (Doc.read text).doc = .ok v := by
    rw [decode] at found
    split at found
    · cases found
    · rename_i a decoded
      split at found <;> cases found
      exact decoded
  have again := h _ v once reads
  have read : Doc.read written = ⟨(write v).doc, false⟩ := by
    obtain ⟨compressed, pretty⟩ := read_written (write v) reads
    rcases List.mem_cons.1 mem with rfl | mem
    · exact compressed
    · rw [List.mem_singleton.1 mem]
      exact pretty
  have decoded : decode d written = .ok v := by simp [decode, read, again]
  rw [decoded]
  exact ⟨rfl, rfl⟩

end Decoder
end StrategyForm.Json
