import Mathlib.Data.String.Basic
import TypedRecord.Entries

/-!
# Laws of sorted entries

Insertion, removal and a change of every value keep the keys in ascending order. A sorted map is
determined by its look-ups, so it is also what its own pairs make when they are inserted one after
another.
-/
namespace TypedRecord.Entries

variable {α β : Type}

/-- What stands under a key is smaller than the list of the entries. -/
theorem sizeOf_snd_lt {κ ι : Type} [SizeOf κ] [SizeOf ι] {entries : List (κ × ι)} {entry : κ × ι}
    (member : entry ∈ entries) : sizeOf entry.2 < sizeOf entries := by
  have smaller := List.sizeOf_lt_of_mem member
  obtain ⟨key, item⟩ := entry
  have same : sizeOf (key, item).2 = sizeOf item := rfl
  rw [Prod.mk.sizeOf_spec] at smaller
  omega

/-- The entries after the first of a sorted map are sorted. -/
theorem Sorted.tail {entry : String × α} {rest : Entries α} (sorted : Sorted (entry :: rest)) :
    Sorted rest := List.Pairwise.of_cons sorted

/-- The first key of a sorted map comes before every other key. -/
theorem Sorted.head_lt {entry other : String × α} {rest : Entries α}
    (sorted : Sorted (entry :: rest)) (member : other ∈ rest) : entry.1 < other.1 :=
  List.rel_of_pairwise_cons sorted member

/-- The keys of a sorted map are distinct. -/
theorem Sorted.nodup_keys {entries : Entries α} (sorted : Sorted entries) :
    (keys entries).Nodup :=
  List.Pairwise.imp (fun less => ne_of_lt less) (List.pairwise_map.mpr sorted)

/-- A key without a value stands in no entry. -/
theorem find?_eq_none_iff {entries : Entries α} {key : String} :
    find? entries key = none ↔ ∀ entry ∈ entries, entry.1 ≠ key := by
  induction entries with
  | nil => simp [find?]
  | cons entry rest ih =>
    obtain ⟨held, value⟩ := entry
    by_cases same : held = key
    · simp [find?, same]
    · simp [find?, same, ih]

/-- A value that is found stands in an entry of its key. -/
theorem mem_of_find? {entries : Entries α} {key : String} {value : α}
    (found : find? entries key = some value) : (key, value) ∈ entries := by
  induction entries with
  | nil => simp [find?] at found
  | cons entry rest ih =>
    obtain ⟨held, old⟩ := entry
    by_cases same : held = key
    · subst same
      simp only [find?, ↓reduceIte, Option.some.injEq] at found
      simp [found]
    · simp only [find?, same, ↓reduceIte] at found
      exact List.mem_cons_of_mem _ (ih found)

/-- In a sorted map an entry is what its key finds. -/
theorem Sorted.find?_of_mem {entries : Entries α} (sorted : Sorted entries) {key : String}
    {value : α} (member : (key, value) ∈ entries) : find? entries key = some value := by
  induction entries with
  | nil => simp at member
  | cons entry rest ih =>
    rcases List.mem_cons.mp member with rfl | later
    · simp [find?]
    · have different : entry.1 ≠ key := ne_of_lt (sorted.head_lt later)
      obtain ⟨held, old⟩ := entry
      simp only [find?, different, ↓reduceIte]
      exact ih sorted.tail later

/-- Sorted maps with the same look-ups are the same. -/
theorem Sorted.ext {first second : Entries α} (firstSorted : Sorted first)
    (secondSorted : Sorted second) (same : ∀ key, find? first key = find? second key) :
    first = second := by
  induction first generalizing second with
  | nil =>
    cases second with
    | nil => rfl
    | cons entry rest => simpa [find?] using same entry.1
  | cons entry rest ih =>
    obtain ⟨key, value⟩ := entry
    have found : find? second key = some value := by simpa [find?] using (same key).symm
    cases second with
    | nil => simp [find?] at found
    | cons other others =>
      obtain ⟨key', value'⟩ := other
      have found' : find? ((key, value) :: rest) key' = some value' := by
        simpa [find?] using same key'
      -- Either head stands in the other list, so neither key comes before the other.
      have keys : key = key' := by
        rcases List.mem_cons.mp (mem_of_find? found) with head | later
        · exact congrArg Prod.fst head
        · rcases List.mem_cons.mp (mem_of_find? found') with head | later'
          · exact (congrArg Prod.fst head).symm
          · exact absurd (firstSorted.head_lt later') (lt_asymm (secondSorted.head_lt later))
      subst keys
      have values : value = value' := by simpa [find?] using found.symm
      subst values
      rw [ih firstSorted.tail secondSorted.tail]
      intro name
      by_cases here : key = name
      · subst here
        rw [find?_eq_none_iff.mpr fun entry member => ne_of_gt (firstSorted.head_lt member),
          find?_eq_none_iff.mpr fun entry member => ne_of_gt (secondSorted.head_lt member)]
      · simpa [find?, here] using same name

/-- Insertions of two values under one key differ where the values do. -/
theorem insert_inj {entries : Entries α} {key : String} {first second : α} :
    insert entries key first = insert entries key second ↔ first = second := by
  refine ⟨fun same => ?_, fun same => same ▸ rfl⟩
  have found := congrArg (find? · key) same
  simpa using found

/-- An entry of an insertion is the new one or was there before. -/
theorem mem_insert {entries : Entries α} {key : String} {value : α} {entry : String × α}
    (member : entry ∈ insert entries key value) : entry = (key, value) ∨ entry ∈ entries := by
  induction entries with
  | nil => simpa [insert] using member
  | cons first rest ih =>
    obtain ⟨held, old⟩ := first
    rw [insert] at member
    split at member
    · simpa using member
    · split at member
      · rcases List.mem_cons.mp member with new | later
        · exact .inl new
        · exact .inr (List.mem_cons_of_mem _ later)
      · rcases List.mem_cons.mp member with first | later
        · exact .inr (List.mem_cons.mpr (.inl first))
        · exact (ih later).imp_right (List.mem_cons_of_mem _)

/-- An insertion keeps the keys in order. -/
theorem Sorted.insert {entries : Entries α} (sorted : Sorted entries) (key : String) (value : α) :
    Sorted (insert entries key value) := by
  induction entries with
  | nil => exact List.pairwise_singleton _ _
  | cons first rest ih =>
    obtain ⟨held, old⟩ := first
    rw [Entries.insert]
    split
    · next before =>
      refine List.Pairwise.cons (fun entry member => ?_) sorted
      rcases List.mem_cons.mp member with rfl | later
      · exact before
      · exact before.trans (sorted.head_lt later)
    · split
      · next same =>
        subst same
        exact List.Pairwise.cons (fun entry later => sorted.head_lt later) sorted.tail
      · next notBefore different =>
        refine List.Pairwise.cons (fun entry member => ?_) (ih sorted.tail)
        rcases mem_insert member with rfl | later
        · exact lt_of_le_of_ne (not_lt.mp notBefore) (Ne.symm different)
        · exact sorted.head_lt later

/-- A map of pairs that are inserted one after another is sorted when it starts sorted. -/
theorem Sorted.overlay {entries : Entries α} (sorted : Sorted entries) (later : Entries α) :
    Sorted (overlay entries later) := by
  induction later generalizing entries with
  | nil => exact sorted
  | cons pair rest ih => exact ih (sorted.insert pair.1 pair.2)

/-- An entry of a map that another one was put over is in one of the two. -/
theorem mem_overlay {entries later : Entries α} {entry : String × α}
    (member : entry ∈ overlay entries later) : entry ∈ entries ∨ entry ∈ later := by
  induction later generalizing entries with
  | nil => exact .inl member
  | cons pair rest ih =>
    rcases ih member with inserted | inRest
    · rcases mem_insert inserted with rfl | before
      · exact .inr List.mem_cons_self
      · exact .inl before
    · exact .inr (List.mem_cons_of_mem _ inRest)

/-- The map of a list of pairs is sorted. -/
theorem sorted_ofList (pairs : List (String × α)) : Sorted (ofList pairs) :=
  Sorted.overlay List.Pairwise.nil pairs

/-- A removal keeps the keys in order. -/
theorem Sorted.erase {entries : Entries α} (sorted : Sorted entries) (key : String) :
    Sorted (erase entries key) := List.Pairwise.filter _ sorted

/-- A key that comes after all others is inserted at the end. -/
theorem insert_eq_append {entries : Entries α} {key : String} (value : α)
    (last : ∀ entry ∈ entries, entry.1 < key) :
    insert entries key value = entries ++ [(key, value)] := by
  induction entries with
  | nil => rfl
  | cons first rest ih =>
    obtain ⟨held, old⟩ := first
    have before : held < key := last (held, old) List.mem_cons_self
    rw [insert, if_neg (lt_asymm before), if_neg (ne_of_gt before),
      ih fun entry member => last entry (List.mem_cons_of_mem _ member), List.cons_append]

/-- Sorted entries that all come after those of a map are put behind them. -/
theorem overlay_eq_append {entries later : Entries α} (sorted : Sorted (entries ++ later)) :
    overlay entries later = entries ++ later := by
  induction later generalizing entries with
  | nil => simp [overlay]
  | cons pair rest ih =>
    obtain ⟨key, value⟩ := pair
    have last : ∀ entry ∈ entries, entry.1 < key := fun entry member =>
      (List.pairwise_append.mp sorted).2.2 entry member (key, value) List.mem_cons_self
    have step : overlay entries ((key, value) :: rest) =
        overlay (entries ++ [(key, value)]) rest := by
      rw [← insert_eq_append value last]
      rfl
    rw [step, ih (by simpa using sorted), List.append_assoc, List.singleton_append]

/-- A sorted map is what its own pairs make. -/
theorem Sorted.ofList_self {entries : Entries α} (sorted : Sorted entries) :
    ofList entries = entries := overlay_eq_append sorted

/-- A change of the values leaves the order of the keys. -/
theorem sorted_mapValues {change : α → β} {entries : Entries α} :
    Sorted (mapValues change entries) ↔ Sorted entries := by
  simp only [Sorted, mapValues, List.pairwise_map]

/-- An inserted value changes like the others. -/
theorem mapValues_insert (change : α → β) (entries : Entries α) (key : String) (value : α) :
    mapValues change (insert entries key value) =
      insert (mapValues change entries) key (change value) := by
  induction entries with
  | nil => rfl
  | cons first rest ih =>
    obtain ⟨held, old⟩ := first
    simp only [mapValues] at ih
    simp only [insert, mapValues, List.map_cons]
    split
    · rfl
    · split
      · rfl
      · rw [List.map_cons, ih]

/-- The values of pairs may be changed before or after the pairs are made a map. -/
theorem mapValues_ofList (change : α → β) (pairs : List (String × α)) :
    mapValues change (ofList pairs) = ofList (mapValues change pairs) := by
  suffices run : ∀ entries : Entries α,
      mapValues change (overlay entries pairs) =
        overlay (mapValues change entries) (mapValues change pairs) from run []
  induction pairs with
  | nil => exact fun _ => rfl
  | cons pair rest ih =>
    intro entries
    have later := ih (insert entries pair.1 pair.2)
    rw [mapValues_insert] at later
    exact later

/-- A changed value is found where the value was. -/
theorem find?_mapValues (change : α → β) (entries : Entries α) (key : String) :
    find? (mapValues change entries) key = (find? entries key).map change := by
  induction entries with
  | nil => rfl
  | cons entry rest ih =>
    obtain ⟨held, value⟩ := entry
    by_cases same : held = key
    · simp [mapValues, find?, same]
    · simpa [mapValues, find?, same] using ih

/-- A replaced value is found when there was one. -/
theorem find?_replace_self {entries : Entries α} {key : String} (value : α)
    (held : (find? entries key).isSome) : find? (replace entries key value) key = some value := by
  induction entries with
  | nil => simp [find?] at held
  | cons entry rest ih =>
    obtain ⟨first, old⟩ := entry
    by_cases same : first = key
    · simp [replace, find?, same]
    · simp only [find?, same, ↓reduceIte] at held
      simpa [replace, find?, same] using ih held

/-- A replacement leaves every other key as it was. -/
theorem find?_replace_of_ne (entries : Entries α) {key other : String} (value : α)
    (different : key ≠ other) : find? (replace entries key value) other = find? entries other := by
  induction entries with
  | nil => rfl
  | cons entry rest ih =>
    obtain ⟨first, old⟩ := entry
    by_cases same : first = key
    · subst same
      simp [replace, find?, different]
    · by_cases sought : first = other
      · subst sought
        simp [replace, find?, same]
      · simpa [replace, find?, same, sought] using ih

/-- What is in a list with a value replaced was there or is the new value. -/
theorem mem_replace {entries : Entries α} {key : String} {value : α} {entry : String × α}
    (member : entry ∈ replace entries key value) :
    entry = (key, value) ∨ entry ∈ entries := by
  induction entries with
  | nil => exact absurd member List.not_mem_nil
  | cons first rest ih =>
    obtain ⟨held, old⟩ := first
    rw [replace] at member
    split at member
    · next same =>
      rcases List.mem_cons.mp member with here | later
      · exact .inl (same ▸ here)
      · exact .inr (List.mem_cons_of_mem _ later)
    · rcases List.mem_cons.mp member with here | later
      · exact .inr (here ▸ List.mem_cons_self)
      · exact (ih later).imp_right (List.mem_cons_of_mem _)

/-- A replacement leaves the keys. -/
theorem keys_replace (entries : Entries α) (key : String) (value : α) :
    keys (replace entries key value) = keys entries := by
  induction entries with
  | nil => rfl
  | cons entry rest ih =>
    obtain ⟨first, old⟩ := entry
    by_cases same : first = key
    · simp [replace, keys, same]
    · simpa [replace, keys, same] using ih

/-- Of two replacements under one key the second counts. -/
theorem replace_replace (entries : Entries α) (key : String) (first second : α) :
    replace (replace entries key first) key second = replace entries key second := by
  induction entries with
  | nil => rfl
  | cons entry rest ih =>
    obtain ⟨held, old⟩ := entry
    by_cases same : held = key
    · simp [replace, same]
    · simpa [replace, same] using ih

/-- Replacements under two keys may be made in either order. -/
theorem replace_comm (entries : Entries α) {key other : String} (first second : α)
    (different : key ≠ other) : replace (replace entries key first) other second =
      replace (replace entries other second) key first := by
  induction entries with
  | nil => rfl
  | cons entry rest ih =>
    obtain ⟨held, old⟩ := entry
    by_cases same : held = key
    · subst same
      simp [replace, different]
    · by_cases sought : held = other
      · subst sought
        simp [replace, same]
      · simpa [replace, same, sought] using ih

/-- A value that is replaced by itself leaves the entries. -/
theorem replace_of_find? {entries : Entries α} {key : String} {value : α}
    (found : find? entries key = some value) : replace entries key value = entries := by
  induction entries with
  | nil => rfl
  | cons entry rest ih =>
    obtain ⟨held, old⟩ := entry
    by_cases same : held = key
    · subst same
      simp only [find?, ↓reduceIte, Option.some.injEq] at found
      simp [replace, found]
    · simp only [find?, same, ↓reduceIte] at found
      simp [replace, same, ih found]

/-- A key that is erased, or was not there, is not among the keys that are left. -/
theorem notMem_keys_foldl_erase {erased : List String} {entries : Entries α} {key : String}
    (gone : key ∈ erased ∨ key ∉ keys entries) : key ∉ keys (erased.foldl erase entries) := by
  induction erased generalizing entries with
  | nil => simpa using gone
  | cons first rest ih =>
    apply ih
    by_cases later : key ∈ rest
    · exact .inl later
    · right
      intro member
      obtain ⟨entry, kept, equal⟩ := List.mem_map.mp member
      obtain ⟨before, different⟩ := List.mem_filter.mp kept
      rcases gone with here | never
      · rcases List.mem_cons.mp here with same | inRest
        · simp [equal, same] at different
        · exact later inRest
      · exact never (List.mem_map.mpr ⟨entry, before, equal⟩)

/-- Of two lists of entries the first that has a key decides. -/
theorem find?_append (first second : Entries α) (key : String) :
    find? (first ++ second) key = (find? first key).or (find? second key) := by
  induction first with
  | nil => rfl
  | cons entry rest ih =>
    obtain ⟨held, value⟩ := entry
    by_cases same : held = key
    · simp [find?, same]
    · simpa [find?, same] using ih

/-- Of two maps the later one decides, where its keys are distinct. -/
theorem find?_overlay {entries later : Entries α} (distinct : (keys later).Nodup) (key : String) :
    find? (overlay entries later) key = (find? later key).or (find? entries key) := by
  induction later generalizing entries with
  | nil => rfl
  | cons pair rest ih =>
    obtain ⟨first, value⟩ := pair
    obtain ⟨fresh, restDistinct⟩ := List.nodup_cons.mp distinct
    have step : overlay entries ((first, value) :: rest) =
        overlay (insert entries first value) rest := rfl
    rw [step, ih restDistinct]
    by_cases same : first = key
    · subst same
      have absent : find? rest first = none := by
        rw [find?_eq_none_iff]
        intro entry member equal
        exact fresh (List.mem_map.mpr ⟨entry, member, equal⟩)
      simp [find?, absent]
    · simp [find?, same, find?_insert_of_ne]

/-- Of two maps put over each other one has a key exactly when one of them does. -/
theorem isSome_find?_overlay (entries later : Entries α) (key : String) :
    (find? (overlay entries later) key).isSome ↔
      (find? entries key).isSome ∨ ∃ pair ∈ later, pair.1 = key := by
  induction later generalizing entries with
  | nil => simp [overlay]
  | cons pair rest ih =>
    have step : overlay entries (pair :: rest) = overlay (insert entries pair.1 pair.2) rest := rfl
    rw [step, ih, List.exists_mem_cons_iff, ← or_assoc]
    by_cases same : pair.1 = key
    · simp [← same]
    · simp [find?_insert_of_ne entries pair.2 same, same]

/-- What is put over other entries leaves nothing of them when it has all their keys. -/
theorem overlay_eq_self_iff {entries later : Entries α} (sorted : Sorted entries)
    (laterSorted : Sorted later) :
    overlay entries later = later ↔ ∀ key, contains entries key → contains later key := by
  constructor
  · intro same key held
    have both : (find? (overlay entries later) key).isSome := by
      rw [find?_overlay laterSorted.nodup_keys, Option.isSome_or, Bool.or_eq_true]
      exact .inr held
    rwa [same] at both
  · intro covered
    refine (sorted.overlay later).ext laterSorted fun key => ?_
    rw [find?_overlay laterSorted.nodup_keys]
    cases held : find? later key with
    | some value => rfl
    | none =>
      have absent : ¬ contains entries key := by
        intro before
        have after := covered key before
        simp [contains, held] at after
      rw [contains, Option.not_isSome_iff_eq_none] at absent
      rw [absent, Option.or_none]

/-- A map of pairs with distinct keys finds what the pairs say. -/
theorem find?_ofList {pairs : List (String × α)} (distinct : (keys pairs).Nodup) (key : String) :
    find? (ofList pairs) key = find? pairs key := by
  have found : find? (overlay [] pairs) key = (find? pairs key).or (find? [] key) :=
    find?_overlay distinct key
  rw [show ofList pairs = overlay [] pairs from rfl, found]
  simp [find?]

/-- A map of pairs of which the earlier one counts is sorted. -/
theorem sorted_ofFirst (pairs : List (String × α)) : Sorted (ofFirst pairs) := by
  induction pairs with
  | nil => exact List.Pairwise.nil
  | cons pair rest ih => exact Sorted.insert ih pair.1 pair.2

/-- A map of pairs of which the earlier one counts finds what the pairs say. -/
theorem find?_ofFirst (pairs : List (String × α)) (key : String) :
    find? (ofFirst pairs) key = find? pairs key := by
  induction pairs with
  | nil => rfl
  | cons pair rest ih =>
    obtain ⟨first, value⟩ := pair
    have step : ofFirst ((first, value) :: rest) = insert (ofFirst rest) first value := rfl
    rw [step]
    by_cases same : first = key
    · subst same
      simp [find?]
    · simp [find?, same, find?_insert_of_ne, ih]

/-- The keys of values under names are the names that have one. -/
theorem keys_filterMap (value? : String → Option α) (names : List String) :
    keys (names.filterMap fun name => (value? name).map fun value => (name, value)) =
      names.filter fun name => (value? name).isSome := by
  induction names with
  | nil => rfl
  | cons name rest ih =>
    cases found : value? name with
    | none => simpa [found] using ih
    | some value => simpa [keys, found] using ih

/-- The value under a name is found when the name is there. -/
theorem find?_filterMap (value? : String → Option α) (names : List String) (name : String) :
    find? (names.filterMap fun name => (value? name).map fun value => (name, value)) name =
      if name ∈ names then value? name else none := by
  induction names with
  | nil => rfl
  | cons first rest ih =>
    by_cases same : first = name
    · subst same
      cases found : value? first with
      | none => simpa [found] using ih
      | some value => simp [found, find?]
    · have different : name ≠ first := Ne.symm same
      cases found : value? first with
      | none => simpa [found, different] using ih
      | some value => simpa [found, find?, same, different] using ih

/-- The entries that are kept with a changed value stand under keys that were there, in order. -/
theorem Sorted.filterMap {entries : Entries α} (sorted : Sorted entries)
    (change : String → α → Option β) :
    Sorted (entries.filterMap fun entry =>
      (change entry.1 entry.2).map fun value => (entry.1, value)) := by
  refine List.Pairwise.filterMap _ (fun first second before kept keptOf other otherOf => ?_) sorted
  obtain ⟨_, -, rfl⟩ := Option.map_eq_some_iff.mp keptOf
  obtain ⟨_, -, rfl⟩ := Option.map_eq_some_iff.mp otherOf
  exact before

/-- What is found among entries that are kept with a changed value. -/
theorem Sorted.find?_filterMap {entries : Entries α} (sorted : Sorted entries)
    (change : String → α → Option β) (key : String) :
    find? (entries.filterMap fun entry =>
      (change entry.1 entry.2).map fun value => (entry.1, value)) key =
        (find? entries key).bind (change key) := by
  induction entries with
  | nil => rfl
  | cons entry rest ih =>
    obtain ⟨held, old⟩ := entry
    have later := ih sorted.tail
    by_cases same : held = key
    · subst same
      have absent : find? rest held = none := by
        rw [find?_eq_none_iff]
        exact fun other member => (ne_of_lt (sorted.head_lt member)).symm
      rw [absent, Option.bind_none] at later
      cases changed : change held old with
      | none => simpa [changed, find?] using later
      | some value => simp [changed, find?]
    · cases changed : change held old with
      | none => simpa [changed, find?, same] using later
      | some value => simpa [changed, find?, same] using later

end TypedRecord.Entries
