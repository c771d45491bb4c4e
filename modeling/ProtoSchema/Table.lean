/-!
# Tables of named entries

Two ways to keep entries under names. In both a name stands once, and an entry put under a name
that is there already replaces the old one.

* `put` keeps the entries in the order in which their names first came: a replaced entry keeps its
  place. The packages and the message types of a package are kept so.
* `insertSorted` keeps the names in ascending order of their code points. The properties of a
  schema are kept so.

Entries are found again with `List.lookup`.
-/

namespace ProtoSchema

variable {α : Type}

/-- Looking a name up goes through the entries from the front. -/
theorem lookup_cons (name n : String) (e : α) (t : List (String × α)) :
    ((n, e) :: t).lookup name = if name = n then some e else t.lookup name := by
  rw [List.lookup_cons]
  by_cases h : name = n
  · simp [h]
  · have hb : (name == n) = false := beq_false_of_ne h
    simp [hb, h]

/-- A name that is found stands in the table. -/
theorem mem_of_lookup {name : String} {entry : α} {t : List (String × α)}
    (h : t.lookup name = some entry) : (name, entry) ∈ t := by
  induction t with
  | nil => simp at h
  | cons head rest ih =>
    obtain ⟨n, e⟩ := head
    rw [lookup_cons] at h
    split at h
    · next hn =>
      subst hn
      simp only [Option.some.injEq] at h
      simp [h]
    · exact List.mem_cons_of_mem _ (ih h)

/-- Where no name stands twice, every entry is found under its name. -/
theorem lookup_of_mem {t : List (String × α)} (hnodup : (t.map (·.1)).Nodup) {e : String × α}
    (h : e ∈ t) : t.lookup e.1 = some e.2 := by
  induction t with
  | nil => cases h
  | cons head rest ih =>
    obtain ⟨n, a⟩ := head
    rw [List.map_cons, List.nodup_cons] at hnodup
    rw [lookup_cons]
    rcases List.mem_cons.mp h with rfl | hrest
    · exact if_pos rfl
    · rw [if_neg, ih hnodup.2 hrest]
      rintro rfl
      exact hnodup.1 (List.mem_map.mpr ⟨e, hrest, rfl⟩)

/-- Where no key stands twice, what has the key is found under it. -/
theorem find?_of_mem {β : Type} [DecidableEq β] {key : α → β} {xs : List α}
    (hnodup : (xs.map key).Nodup) {x : α} (h : x ∈ xs) :
    xs.find? (fun y => key y = key x) = some x := by
  induction xs with
  | nil => cases h
  | cons y ys ih =>
    rw [List.map_cons, List.nodup_cons] at hnodup
    rcases List.mem_cons.mp h with rfl | hrest
    · exact List.find?_cons_of_pos (decide_eq_true rfl)
    · have hne : key y ≠ key x := fun heq => hnodup.1 (heq ▸ List.mem_map_of_mem hrest)
      rw [List.find?_cons_of_neg (by simpa using hne), ih hnodup.2 hrest]

/-! ## The last of a kind -/

theorem findRev?_concat (p : α → Bool) (xs : List α) (x : α) :
    (xs ++ [x]).findRev? p = if p x then some x else xs.findRev? p := by
  rw [List.findRev?_eq_find?_reverse, List.findRev?_eq_find?_reverse, List.reverse_concat,
    List.find?_cons]
  cases p x <;> rfl

theorem mem_of_findRev? {p : α → Bool} {xs : List α} {x : α} (h : xs.findRev? p = some x) :
    x ∈ xs ∧ p x = true := by
  rw [List.findRev?_eq_find?_reverse] at h
  exact ⟨List.mem_reverse.mp (List.mem_of_find?_eq_some h), List.find?_some h⟩

theorem findRev?_eq_none {p : α → Bool} {xs : List α} (h : ∀ x ∈ xs, ¬ p x = true) :
    xs.findRev? p = none := by
  rw [List.findRev?_eq_find?_reverse, List.find?_eq_none]
  exact fun x hx => h x (List.mem_reverse.mp hx)

/-- Where no key stands twice, what has the key is found from the back too. -/
theorem findRev?_of_mem {β : Type} [DecidableEq β] {key : α → β} {xs : List α}
    (hnodup : (xs.map key).Nodup) {x : α} (h : x ∈ xs) :
    xs.findRev? (fun y => key y = key x) = some x := by
  rw [List.findRev?_eq_find?_reverse]
  refine find?_of_mem ?_ (List.mem_reverse.mpr h)
  rw [List.map_reverse, List.Nodup, List.pairwise_reverse]
  exact hnodup.imp Ne.symm

/-! ## Order of first arrival -/

/-- Put an entry under a name: in the place of the entry of that name, or else last. -/
def put (name : String) (entry : α) : List (String × α) → List (String × α)
  | [] => [(name, entry)]
  | (n, e) :: rest => if n = name then (name, entry) :: rest else (n, e) :: put name entry rest

/-- Under the name stands what was put there, and under every other name what stood there. -/
theorem lookup_put (name other : String) (entry : α) (t : List (String × α)) :
    (put name entry t).lookup other = if other = name then some entry else t.lookup other := by
  induction t with
  | nil => simp only [put, lookup_cons]
  | cons head rest ih =>
    obtain ⟨n, e⟩ := head
    simp only [put]
    split
    · next hn =>
      subst hn
      simp only [lookup_cons]
      split <;> rfl
    · next hn =>
      simp only [lookup_cons, ih]
      split
      · next ho =>
        subst ho
        rw [if_neg hn]
      · rfl

/-- A new name stands last. -/
theorem put_eq_append {name : String} {t : List (String × α)} (h : name ∉ t.map (·.1))
    (entry : α) : put name entry t = t ++ [(name, entry)] := by
  induction t with
  | nil => rfl
  | cons head rest ih =>
    obtain ⟨n, e⟩ := head
    rw [List.map_cons, List.mem_cons, not_or] at h
    rw [put, if_neg (Ne.symm h.1), ih h.2]
    rfl

/-- The names with one more, which comes last unless it is there already. -/
def addName (names : List String) (name : String) : List String :=
  if name ∈ names then names else names ++ [name]

theorem addName_of_mem {names : List String} {name : String} (h : name ∈ names) :
    addName names name = names :=
  if_pos h

theorem mem_addName_self (names : List String) (name : String) : name ∈ addName names name := by
  rw [addName]
  split
  · assumption
  · exact List.mem_append_right _ List.mem_cons_self

theorem names_put (name : String) (entry : α) (t : List (String × α)) :
    (put name entry t).map (·.1) = addName (t.map (·.1)) name := by
  rw [addName]
  split
  · next h =>
    induction t with
    | nil => cases h
    | cons head rest ih =>
      obtain ⟨n, e⟩ := head
      rw [put]
      split
      · next hn => rw [List.map_cons, List.map_cons, hn]
      · next hn =>
        rw [List.map_cons, List.map_cons, ih]
        exact (List.mem_cons.mp h).resolve_left (Ne.symm hn)
  · next h => rw [put_eq_append h, List.map_append, List.map_singleton]

/-- Names that are added one after the other stand in the order of their first arrival. -/
theorem eraseDups_concat (names : List String) (name : String) :
    (names ++ [name]).eraseDups = addName names.eraseDups name := by
  rw [addName, List.eraseDups_append]
  by_cases h : name ∈ names <;> simp [List.removeAll, List.eraseDups_cons, h]

/-! ## Ascending names -/

/-- Insert an entry under a name, before the first greater name. -/
def insertSorted (name : String) (entry : α) : List (String × α) → List (String × α)
  | [] => [(name, entry)]
  | (n, e) :: rest =>
    if n = name then (name, entry) :: rest
    else if name < n then (name, entry) :: (n, e) :: rest
    else (n, e) :: insertSorted name entry rest

/-- The entries inserted one after the other; of two under one name the later stays. -/
def sortedTable (entries : List (String × α)) : List (String × α) :=
  entries.foldl (fun t (name, entry) => insertSorted name entry t) []

/-- What holds of the empty table and is kept by inserting the entries holds of the table of
them. -/
theorem sortedTable_induction {motive : List (String × α) → Prop} (entries : List (String × α))
    (hnil : motive []) (hinsert : ∀ t, ∀ e ∈ entries, motive t → motive (insertSorted e.1 e.2 t)) :
    motive (sortedTable entries) := by
  have key : ∀ t, motive t →
      motive (entries.foldl (fun t (name, entry) => insertSorted name entry t) t) := by
    induction entries with
    | nil => exact fun t ht => ht
    | cons head rest ih =>
      intro t ht
      exact ih (fun t e he => hinsert t e (List.mem_cons_of_mem _ he)) _
        (hinsert t head List.mem_cons_self ht)
  exact key [] hnil

/-- Under the name stands what was inserted there, and under every other name what stood there. -/
theorem lookup_insertSorted (name other : String) (entry : α) (t : List (String × α)) :
    (insertSorted name entry t).lookup other =
      if other = name then some entry else t.lookup other := by
  induction t with
  | nil => simp only [insertSorted, lookup_cons]
  | cons head rest ih =>
    obtain ⟨n, e⟩ := head
    simp only [insertSorted]
    split
    · next hn =>
      subst hn
      simp only [lookup_cons]
      split <;> rfl
    · next hn =>
      split
      · simp only [lookup_cons]
      · simp only [lookup_cons, ih]
        split
        · next ho =>
          subst ho
          rw [if_neg hn]
        · rfl

/-- Under a name stands the last entry of that name. -/
theorem lookup_sortedTable (entries : List (String × α)) (name : String) :
    (sortedTable entries).lookup name = (entries.findRev? (·.1 = name)).map (·.2) := by
  -- what was in the table before stays where the entries do not reach
  have key : ∀ t : List (String × α),
      (entries.foldl (fun t (name, entry) => insertSorted name entry t) t).lookup name =
        ((entries.findRev? (·.1 = name)).map (·.2)).or (t.lookup name) := by
    induction entries with
    | nil =>
      intro t
      rfl
    | cons head rest ih =>
      obtain ⟨n, e⟩ := head
      intro t
      rw [List.foldl_cons, ih, lookup_insertSorted, List.findRev?]
      cases rest.findRev? (·.1 = name) with
      | some last => rfl
      | none =>
        by_cases h : n = name
        · simp [h]
        · simp [h, Ne.symm h]
  simpa [sortedTable] using key []

end ProtoSchema
