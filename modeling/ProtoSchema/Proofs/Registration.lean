import ProtoSchema.Session

/-!
# What a registry holds

Registering messages brings in these messages and what is declared inside them, and nothing else
(`Registry.mem_declarations_of_registerAll`). So whatever a name resolves to in a session is
declared in one of its files.

This is the part of what is known of a registry that needs no tree: it is enough to see that each
step changes the types of one package, by one message. What the packages are, and which message is
found under which name, is the matter of other modules.
-/

namespace ProtoSchema

theorem mem_put {α : Type} {name : String} {entry : α} {t : List (String × α)}
    {e : String × α} (h : e ∈ put name entry t) : e = (name, entry) ∨ e ∈ t := by
  induction t with
  | nil => exact Or.inl (List.mem_singleton.mp h)
  | cons head rest ih =>
    obtain ⟨n, a⟩ := head
    rw [put] at h
    split at h
    · rcases List.mem_cons.mp h with he | he
      · exact Or.inl he
      · exact Or.inr (List.mem_cons_of_mem _ he)
    · rcases List.mem_cons.mp h with he | he
      · exact Or.inr (he ▸ List.mem_cons_self)
      · exact (ih he).imp_right (List.mem_cons_of_mem _)

namespace Registry

theorem mem_declarations_iff {r : Registry} {d : Declaration} :
    d ∈ r.declarations ↔ ∃ n ∈ r.nodes, ∃ e ∈ n.types, d ∈ e.2.all := by
  rw [declarations, List.mem_flatMap]
  simp only [Array.mem_toList_iff, List.mem_flatMap]

/-- Changing one node leaves the other nodes. -/
theorem mem_modify {nodes : Array PackageNode} {id : PackageId} {f : PackageNode → PackageNode}
    {n : PackageNode} (h : n ∈ nodes.modify id f) : n ∈ nodes ∨ ∃ n' ∈ nodes, n = f n' := by
  obtain ⟨i, hi, hn⟩ := Array.mem_iff_getElem.mp h
  have hsize : i < nodes.size := by simpa using hi
  rw [Array.getElem_modify] at hn
  split at hn
  · exact Or.inr ⟨nodes[i], Array.getElem_mem hsize, hn.symm⟩
  · exact Or.inl (hn ▸ Array.getElem_mem hsize)

/-- Entering a child brings in no messages. -/
theorem mem_declarations_of_enter {r : Registry} {id : PackageId} {segment : String}
    {d : Declaration} (h : d ∈ (r.enter id segment).1.declarations) : d ∈ r.declarations := by
  rw [enter] at h
  split at h
  · exact h
  · rw [mem_declarations_iff] at h ⊢
    obtain ⟨n, hn, e, he, hd⟩ := h
    rcases Array.mem_push.mp hn with hn | rfl
    · rcases mem_modify hn with hn | ⟨n', hn', rfl⟩
      · exact ⟨n, hn, e, he, hd⟩
      · exact ⟨n', hn', e, he, hd⟩
    · cases he

/-- Nor does going down a way. -/
theorem mem_declarations_of_enterAll {segments : List String} {d : Declaration} :
    ∀ {r : Registry} {id : PackageId}, d ∈ (r.enterAll id segments).1.declarations →
      d ∈ r.declarations := by
  induction segments with
  | nil =>
    intro r id h
    exact h
  | cons segment rest ih =>
    intro r id h
    rw [enterAll, List.foldl_cons] at h
    exact mem_declarations_of_enter (ih h)

/-- Registering a message brings in this message and what is declared inside it. -/
theorem mem_declarations_of_register {r : Registry} {package : String} {d e : Declaration}
    (h : d ∈ (r.register package e).1.declarations) : d ∈ r.declarations ∨ d ∈ e.all := by
  rw [register] at h
  generalize hentered : r.enterAll root (segments package) = entered at h
  obtain ⟨r', id⟩ := entered
  have hr' : d ∈ r'.declarations → d ∈ r.declarations := by
    intro hd
    have hall : d ∈ (r.enterAll root (segments package)).1.declarations := by
      rw [hentered]
      exact hd
    exact mem_declarations_of_enterAll hall
  change d ∈ (r'.addType id e).declarations at h
  rw [mem_declarations_iff] at h
  obtain ⟨n, hn, entry, hentry, hd⟩ := h
  replace hn : n ∈ r'.nodes.modify id fun n =>
    { n with types := put e.message.name e n.types } := hn
  rcases mem_modify hn with hn | ⟨n', hn', rfl⟩
  · exact Or.inl (hr' (mem_declarations_iff.mpr ⟨n, hn, entry, hentry, hd⟩))
  · rcases mem_put hentry with rfl | hentry
    · exact Or.inr hd
    · exact Or.inl (hr' (mem_declarations_iff.mpr ⟨n', hn', entry, hentry, hd⟩))

/-- **What is registered** was there before, or is one of the messages or declared inside one. Each
registration brings in what it says, and making packages brings in nothing. -/
theorem mem_declarations_of_registerAll {messages : List (String × Declaration)}
    {d : Declaration} :
    ∀ {r : Registry}, d ∈ (r.registerAll messages).declarations →
      d ∈ r.declarations ∨ ∃ m ∈ messages, d ∈ m.2.all := by
  induction messages with
  | nil =>
    intro r h
    exact Or.inl h
  | cons m rest ih =>
    intro r h
    obtain ⟨package, e⟩ := m
    rw [registerAll, List.foldl_cons] at h
    rcases ih h with hd | ⟨m, hm, hd⟩
    · rcases mem_declarations_of_register hd with hd | hd
      · exact Or.inl hd
      · exact Or.inr ⟨(package, e), List.mem_cons_self, hd⟩
    · exact Or.inr ⟨m, List.mem_cons_of_mem _ hm, hd⟩

end Registry

/-- What is registered in a session is declared in one of its files. -/
theorem Session.mem_declarations {s : Session} {d : Declaration}
    (h : d ∈ s.registry.declarations) : ∃ m ∈ forestMessages s.forest, d ∈ m.2.all := by
  rcases Registry.mem_declarations_of_registerAll h with hd | hd
  · rw [Registry.mem_declarations_iff] at hd
    obtain ⟨n, hn, e, he, -⟩ := hd
    obtain rfl : n = {} := by simpa [Registry.empty] using hn
    cases he
  · exact hd

end ProtoSchema
