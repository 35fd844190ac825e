/-!
# Maps with text keys

`Keyed β` is a finite map from texts to `β`, held as a list sorted by key without repetitions, so
that two maps with the same look-ups are equal lists and are written in one order. Each operation
is described by what it does to look-ups (`get?_insert`, `get?_erase`, …) and to the number of keys.
-/

namespace StrategyForm

/-- A finite map from texts to `β`, sorted by key. -/
structure Keyed (β : Type) where
  entries : List (String × β)
  sorted : entries.Pairwise (·.1 < ·.1)
deriving Repr

namespace Keyed
variable {β γ : Type}

/-- Looks a key up in a list of entries; the first entry counts. -/
def find (key : String) : List (String × β) → Option β
  | [] => none
  | (k, v) :: rest => if k = key then some v else find key rest

/-- Puts an entry before the first greater key, replacing an entry of the same key. -/
def put (key : String) (value : β) : List (String × β) → List (String × β)
  | [] => [(key, value)]
  | (k, v) :: rest =>
    if key < k then (key, value) :: (k, v) :: rest
    else if key = k then (key, value) :: rest
    else (k, v) :: put key value rest

theorem find_put (key : String) (value : β) (entries : List (String × β)) (k : String) :
    find k (put key value entries) = if key = k then some value else find k entries := by
  induction entries with
  | nil => simp [put, find]
  | cons e rest ih =>
    simp only [put]
    split
    · simp [find]
    · split
      · rename_i h; subst h; simp only [find]; grind
      · rename_i h; simp only [find, ih]; grind

theorem mem_put {key : String} {value : β} {entries : List (String × β)} {e : String × β}
    (h : e ∈ put key value entries) : e = (key, value) ∨ e ∈ entries := by
  induction entries with
  | nil => simpa [put] using h
  | cons a rest ih =>
    simp only [put] at h
    grind

theorem sorted_put (key : String) (value : β) {entries : List (String × β)}
    (h : entries.Pairwise (·.1 < ·.1)) : (put key value entries).Pairwise (·.1 < ·.1) := by
  induction entries with
  | nil => simp [put]
  | cons e rest ih =>
    have ⟨head, tail⟩ := List.pairwise_cons.1 h
    simp only [put]
    split
    · rename_i lt
      refine List.pairwise_cons.2 ⟨fun a ha => ?_, h⟩
      rcases List.mem_cons.1 ha with rfl | ha
      · exact lt
      · exact String.lt_trans lt (head a ha)
    · split
      · rename_i eq; subst eq
        exact List.pairwise_cons.2 ⟨head, tail⟩
      · rename_i not_lt ne
        refine List.pairwise_cons.2 ⟨fun a ha => ?_, ih tail⟩
        rcases mem_put ha with rfl | ha
        · rcases Std.lt_trichotomy key e.1 with h | h | h
          · exact absurd h not_lt
          · exact absurd h ne
          · exact h
        · exact head a ha

theorem sorted_filter (p : String × β → Bool) {entries : List (String × β)}
    (h : entries.Pairwise (·.1 < ·.1)) : (entries.filter p).Pairwise (·.1 < ·.1) :=
  h.filter p

def empty : Keyed β := ⟨[], .nil⟩

instance : EmptyCollection (Keyed β) := ⟨empty⟩
instance : Inhabited (Keyed β) := ⟨empty⟩
instance [BEq β] : BEq (Keyed β) := ⟨fun a b => a.entries == b.entries⟩
instance [DecidableEq β] : DecidableEq (Keyed β) := fun a b =>
  if h : a.entries = b.entries then
    isTrue (by cases a; cases b; cases h; rfl)
  else isFalse (fun e => h (e ▸ rfl))

def get? (m : Keyed β) (key : String) : Option β := find key m.entries

def contains (m : Keyed β) (key : String) : Bool := (m.get? key).isSome

def size (m : Keyed β) : Nat := m.entries.length

def keys (m : Keyed β) : List String := m.entries.map (·.1)

def insert (m : Keyed β) (key : String) (value : β) : Keyed β :=
  ⟨put key value m.entries, sorted_put key value m.sorted⟩

def erase (m : Keyed β) (key : String) : Keyed β :=
  ⟨m.entries.filter (·.1 != key), sorted_filter _ m.sorted⟩

def map (f : β → γ) (m : Keyed β) : Keyed γ :=
  ⟨m.entries.map fun e => (e.1, f e.2), by
    simpa [List.pairwise_map] using m.sorted⟩

/-- All entries of a list; a later entry replaces an earlier one of the same key. -/
def insertAll (m : Keyed β) (entries : List (String × β)) : Keyed β :=
  entries.foldl (fun m e => m.insert e.1 e.2) m

def ofList (entries : List (String × β)) : Keyed β := empty.insertAll entries

/-- The entries of both maps; those of `n` win. -/
def override (m n : Keyed β) : Keyed β := m.insertAll n.entries

@[simp] theorem get?_empty (key : String) : (empty : Keyed β).get? key = none := rfl

@[simp] theorem get?_insert (m : Keyed β) (key : String) (value : β) (k : String) :
    (m.insert key value).get? k = if key = k then some value else m.get? k :=
  find_put key value m.entries k

theorem find_filter (key k : String) (entries : List (String × β)) :
    find k (entries.filter (·.1 != key)) = if key = k then none else find k entries := by
  induction entries with
  | nil => simp [find]
  | cons e rest ih =>
    simp only [List.filter_cons]
    split
    · simp only [find, ih]; grind
    · simp only [find, ih]; grind

@[simp] theorem get?_erase (m : Keyed β) (key k : String) :
    (m.erase key).get? k = if key = k then none else m.get? k :=
  find_filter key k m.entries

@[simp] theorem get?_map (f : β → γ) (m : Keyed β) (key : String) :
    (m.map f).get? key = (m.get? key).map f := by
  simp only [get?, map]
  induction m.entries with
  | nil => rfl
  | cons e rest ih => simp only [List.map_cons, find, ih]; split <;> rfl

theorem mem_keys_iff (m : Keyed β) (key : String) : key ∈ m.keys ↔ m.contains key = true := by
  simp only [keys, contains, get?]
  induction m.entries with
  | nil => simp [find]
  | cons e rest ih => simp only [List.map_cons, List.mem_cons, find, ih]; grind

theorem nodup_keys (m : Keyed β) : m.keys.Nodup := by
  refine List.pairwise_map.2 (m.sorted.imp fun {a b} lt e => ?_)
  rw [e] at lt
  exact String.lt_irrefl _ lt

@[simp] theorem length_keys (m : Keyed β) : m.keys.length = m.size := List.length_map ..

theorem find_eq_none_of_lt {key : String} {entries : List (String × β)}
    (h : ∀ e ∈ entries, key < e.1) : find key entries = none := by
  induction entries with
  | nil => rfl
  | cons e rest ih =>
    have lt := h e List.mem_cons_self
    have ne : e.1 ≠ key := fun eq => String.lt_irrefl key (by rwa [eq] at lt)
    rw [find, if_neg ne]
    exact ih fun e he => h e (List.mem_cons_of_mem _ he)

theorem eq_of_find_eq {l l' : List (String × β)} (sorted : l.Pairwise (·.1 < ·.1))
    (sorted' : l'.Pairwise (·.1 < ·.1)) (h : ∀ key, find key l = find key l') : l = l' := by
  induction l generalizing l' with
  | nil =>
    cases l' with
    | nil => rfl
    | cons b rest' => simpa [find] using h b.1
  | cons a rest ih =>
    cases l' with
    | nil => simpa [find] using h a.1
    | cons b rest' =>
      obtain ⟨above, tail⟩ := List.pairwise_cons.1 sorted
      obtain ⟨above', tail'⟩ := List.pairwise_cons.1 sorted'
      -- the lesser of the two first keys would stand in one list only
      have same : a.1 = b.1 := by
        rcases Std.lt_trichotomy a.1 b.1 with lt | eq | gt
        · have none : find a.1 (b :: rest') = none := find_eq_none_of_lt fun e he => by
            rcases List.mem_cons.1 he with rfl | he
            · exact lt
            · exact String.lt_trans lt (above' e he)
          have found := h a.1
          rw [none, find, if_pos rfl] at found
          cases found
        · exact eq
        · have none : find b.1 (a :: rest) = none := find_eq_none_of_lt fun e he => by
            rcases List.mem_cons.1 he with rfl | he
            · exact gt
            · exact String.lt_trans gt (above e he)
          have found := h b.1
          rw [none, find, if_pos rfl] at found
          cases found
      have value : a.2 = b.2 := by simpa [find, same] using h a.1
      rw [Prod.ext same value]
      refine congrArg (b :: ·) (ih tail tail' fun key => ?_)
      by_cases e : b.1 = key
      · subst e
        rw [find_eq_none_of_lt above', find_eq_none_of_lt fun x hx => same ▸ above x hx]
      · simpa [find, same, e] using h key

theorem mem_insertAll {entries : List (String × β)} {m : Keyed β} {e : String × β}
    (h : e ∈ (m.insertAll entries).entries) : e ∈ entries ∨ e ∈ m.entries := by
  induction entries generalizing m with
  | nil => exact .inr h
  | cons a rest ih =>
    rcases ih h with h | h
    · exact .inl (List.mem_cons_of_mem a h)
    · rcases mem_put h with rfl | h
      · exact .inl List.mem_cons_self
      · exact .inr h

theorem mem_ofList {entries : List (String × β)} {e : String × β}
    (h : e ∈ (ofList entries).entries) : e ∈ entries := by
  rcases mem_insertAll h with h | h
  · exact h
  · cases h

theorem get?_insertAll {entries : List (String × β)} (sorted : entries.Pairwise (·.1 < ·.1))
    (m : Keyed β) (key : String) :
    (m.insertAll entries).get? key = (find key entries).or (m.get? key) := by
  induction entries generalizing m with
  | nil => rfl
  | cons e rest ih =>
    obtain ⟨above, tail⟩ := List.pairwise_cons.1 sorted
    have later := ih tail (m.insert e.1 e.2)
    rw [get?_insert] at later
    show ((m.insert e.1 e.2).insertAll rest).get? key = _
    rw [later, find]
    by_cases same : e.1 = key
    · subst same
      simp [find_eq_none_of_lt above]
    · simp [same]

/-- Maps with the same look-ups are equal. -/
theorem ext {m n : Keyed β} (h : ∀ key, m.get? key = n.get? key) : m = n := by
  cases m with
  | mk entries sorted =>
    cases n with
    | mk entries' sorted' =>
      obtain rfl := eq_of_find_eq sorted sorted' h
      rfl

/-- The entries of a map make that map. -/
theorem ofList_entries (m : Keyed β) : ofList m.entries = m :=
  ext fun key => by rw [ofList, get?_insertAll m.sorted, get?_empty, Option.or_none, get?]

end Keyed

end StrategyForm
